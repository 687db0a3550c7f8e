import LetLang.Proofs.Parse.Attempts
import LetLang.Proofs.Token.Spelling

/-! Statements token by token. At each place inside a statement it is known which tokens can come
next and to which place they lead; a parser that fails has read up to a place at which the token
that its error is about cannot come next. So the places accept exactly the statements of the
grammar.
-/

namespace LetLang

namespace Grammar

/-- The tokens are a statement with its semicolon that can stand where the given names are
visible.
-/
def Sentence (names : Set String) (tokens : List Token) : Prop :=
  ∃ body mark statement,
    tokens = body ++ [mark]
    ∧ StatementForm body statement
    ∧ mark.kind = .semicolon
    ∧ statement.Admissible names

/-- A place inside a statement, named for what stands before it or for what has to follow. -/
inductive Place where
  | start
  | afterLet
  | afterName
  | afterColon
  | afterTypeName
  | value
  | afterTarget
  | complete
  | afterType
  | afterAlias
  | aliased
  | closed
  deriving DecidableEq

namespace Place

/-- The place behind a token of the given kind. -/
def awaitKind (kind : Token.Kind) (reached : Place) (token : Token) : Option Place :=
  if token.kind = kind then some reached else none

/-- The place behind a name that is allowed. -/
def awaitName (allowed : String → Bool) (reached : Place) (token : Token) : Option Place :=
  if token.kind = .identifier ∧ allowed token.text = true then some reached else none

/-- The place behind the first token of a value. -/
def awaitValue (seen : String → Bool) (token : Token) : Option Place :=
  match token.kind with
  | .identifier => if seen token.text then some afterTarget else none
  | .number => if (Parse.numberOf token.text).isFinite then some complete else none
  | .boolean => some complete
  | _ => none

/-- The place behind a token that can come next. `seen` tells the visible names. -/
def next (seen : String → Bool) (place : Place) (token : Token) : Option Place :=
  match place with
  | start =>
      awaitKind .letKeyword afterLet token <|> awaitKind .typeKeyword afterType token
        <|> awaitValue seen token
  | afterLet => awaitName (fun name => !seen name) afterName token
  | afterName => awaitKind .colon afterColon token <|> awaitKind .equals value token
  | afterColon => awaitName seen afterTypeName token
  | afterTypeName => awaitKind .equals value token
  | value => awaitValue seen token
  | afterTarget => awaitKind .equals value token <|> awaitKind .semicolon closed token
  | complete => awaitKind .semicolon closed token
  | afterType => awaitName (fun name => !seen name) afterAlias token
  | afterAlias => awaitKind .equals aliased token
  | aliased => awaitName (fun _ => true) complete token
  | closed => none

/-- The place behind tokens that can come next. -/
def run (seen : String → Bool) (place : Place) : List Token → Option Place
  | [] => some place
  | token :: rest => (place.next seen token).bind fun reached => reached.run seen rest

theorem run_append (seen : String → Bool) (place : Place) (first second : List Token)
    : place.run seen (first ++ second)
      = (place.run seen first).bind fun reached => reached.run seen second := by
  induction first generalizing place with
  | nil => rfl
  | cons token first ih =>
      simp only [List.cons_append, run]
      cases place.next seen token with
      | none => rfl
      | some reached => exact ih reached

/-- Only the spelling of tokens counts. -/
theorem run_eq_of_spelling (seen : String → Bool) {left right : List Token}
    (same : left.map Token.spelling = right.map Token.spelling) (place : Place)
    : place.run seen left = place.run seen right := by
  induction left generalizing right place with
  | nil =>
      obtain rfl := List.map_eq_nil_iff.mp same.symm
      rfl
  | cons token left ih =>
      obtain ⟨other, rest, rfl, spelled, later⟩ := List.map_eq_cons_iff.mp same.symm
      obtain ⟨kind, text⟩ := Prod.mk.inj spelled
      have next : place.next seen token = place.next seen other := by
        simp only [Place.next, awaitKind, awaitName, awaitValue, kind, text]
      simp only [run, next, ih later.symm]

/-- Tokens cannot go on with one that cannot come next. -/
theorem run_of_next_eq_none {seen : String → Bool} {place reached : Place} {read : List Token}
    {token : Token} (ran : place.run seen read = some reached)
    (none : reached.next seen token = none) (later : List Token)
    : place.run seen (read ++ token :: later) = .none := by
  simp [run_append, ran, run, none]

theorem awaitValue_of_name {seen : String → Bool} {token : Token}
    (kind : token.kind = .identifier)
    : awaitValue seen token = if seen token.text then some afterTarget else none := by
  simp [awaitValue, kind]

end Place

end Grammar

namespace Parse

open LetLang.Parse.Parser LetLang.Grammar

/-- An outcome as a step of a parser. -/
def Outcome.step (outcome : Outcome) : Step Statement :=
  match outcome.result with
  | .ok found => .done found outcome.stopped
  | .error error => .failed error outcome.stopped

/-- An error is about a token: it quotes the token, as what stands there, as a number or as a
name.
-/
inductive Blames : ParseError → Token → Prop
  | unexpected {token expected}
    : Blames (.unexpectedToken token.span expected token.kind token.text) token
  | number {token} (kind : token.kind = .number)
    : Blames (.invalidNumber token.span token.text) token
  | redeclared {token} (kind : token.kind = .identifier)
    : Blames (.redeclared (nameSpan token.name) token.text) token
  | undeclared {token isType} (kind : token.kind = .identifier)
    : Blames (.undeclared (nameSpan token.name) token.text isType) token

/-- The current token is refused: a parser has stopped before it or right behind it, with an error
about it.
-/
structure Refused (cursor : Cursor) (error : ParseError) (stopped : Cursor) : Prop where
  blames : Blames error cursor.current
  stopped : stopped = cursor.report error ∨ stopped = cursor.advance.report error

/-- From a place at the cursor, a step that ends has read tokens that can come there, up to a
place of which `post` holds. One that fails has read up to a token that cannot come next, and has
refused that token.
-/
def Step.Tracked {α : Type} (seen : String → Bool) (place : Place) (cursor : Cursor)
    (post : α → Cursor → Place → Prop) : Step α → Prop
  | .done found next =>
      ∃ read reached,
        cursor.Reads read next ∧ place.run seen read = some reached ∧ post found next reached
  | .failed error stopped =>
      ∃ read middle reached,
        cursor.Reads read middle
        ∧ place.run seen read = some reached
        ∧ reached ≠ .closed
        ∧ reached.next seen middle.current = none
        ∧ Refused middle error stopped
  | .faulted _ => False

section

variable {α β : Type} {seen : String → Bool} {visible : Visibility} {place : Place}
  {cursor : Cursor} {post : α → Cursor → Place → Prop}

theorem Step.Tracked.behind {read : List Token} {middle : Cursor} {reached : Place}
    {step : Step α} (reads : cursor.Reads read middle)
    (ran : place.run seen read = some reached) (tracked : step.Tracked seen reached middle post)
    : step.Tracked seen place cursor post := by
  have goes : ∀ more, place.run seen (read ++ more) = reached.run seen more := by
    intro more
    rw [Place.run_append, ran]
    rfl
  cases step with
  | done found next =>
      obtain ⟨more, final, further, ends, holds⟩ := tracked
      exact ⟨read ++ more, final, reads.trans further, (goes more).trans ends, holds⟩
  | failed error stopped =>
      obtain ⟨more, last, final, further, ends, stuck⟩ := tracked
      exact ⟨read ++ more, last, final, reads.trans further, (goes more).trans ends, stuck⟩
  | faulted fault => exact tracked

theorem Step.Tracked.bind {parser : Parser α} {next : α → Parser β}
    {result : β → Cursor → Place → Prop}
    (first : (parser cursor).Tracked seen place cursor post)
    (second
      : ∀ found middle reached,
          post found middle reached → (next found middle).Tracked seen reached middle result)
    : ((parser >>= next) cursor).Tracked seen place cursor result := by
  rw [bind_apply]
  cases step : parser cursor with
  | done found middle =>
      rw [step] at first
      obtain ⟨read, reached, reads, ran, holds⟩ := first
      exact (second found middle reached holds).behind reads ran
  | failed error stopped =>
      rw [step] at first
      exact first
  | faulted fault =>
      rw [step] at first
      exact first

theorem Step.Tracked.pure {found : α} (holds : post found cursor place)
    : ((Pure.pure found : Parser α) cursor).Tracked seen place cursor post :=
  ⟨[], place, .nil, rfl, holds⟩

/-- A token that can come next is read. -/
theorem Step.Tracked.read {found : α} {reached : Place} (regular : cursor.current.kind ≠ .endOfFile)
    (leads : place.next seen cursor.current = some reached)
    (holds : post found cursor.advance reached)
    : (Step.done found cursor.advance).Tracked seen place cursor post :=
  ⟨[cursor.current], reached, Cursor.reads_current cursor regular,
    by simp [Place.run, leads], holds⟩

/-- A parser fails at a token that cannot come next. -/
theorem Step.Tracked.stuck {error : ParseError} {stopped : Cursor} (ready : place ≠ .closed)
    (none : place.next seen cursor.current = none) (refused : Refused cursor error stopped)
    : (Step.failed error stopped : Step α).Tracked seen place cursor post :=
  ⟨[], cursor, place, .nil, rfl, ready, none, refused⟩

-----------------------------------------------------------------------------------------
-- Single tokens
-----------------------------------------------------------------------------------------

/-- A token of a kind is read if it stands there, and is blamed otherwise. -/
theorem tracked_expect {kind : Token.Kind} (regular : kind ≠ .endOfFile) {reached : Place}
    (ready : place ≠ .closed)
    (leads : ∀ token : Token, token.kind = kind → place.next seen token = some reached)
    (others : cursor.current.kind ≠ kind → place.next seen cursor.current = none)
    : (expect kind cursor).Tracked seen place cursor fun _ _ final => final = reached := by
  rw [expect_apply]
  by_cases same : cursor.current.kind = kind
  · rw [if_pos same]
    exact .read (same ▸ regular) (leads _ same) rfl
  · rw [if_neg same]
    exact .stuck ready (others same) ⟨.unexpected, .inl rfl⟩

/-- An atom is read where a value can start, and otherwise the token there is refused. -/
theorem atom_cases (seen : String → Bool) (cursor : Cursor)
    : cursor.current.kind = .identifier
        ∧ atom cursor = .done (.identifier cursor.current.name) cursor.advance
      ∨ (cursor.current.kind = .number ∨ cursor.current.kind = .boolean)
        ∧ Place.awaitValue seen cursor.current = some .complete
        ∧ (∃ leaf, (∀ name, leaf ≠ .identifier name) ∧ atom cursor = .done leaf cursor.advance)
      ∨ cursor.current.kind ≠ .identifier
        ∧ Place.awaitValue seen cursor.current = none
        ∧ ∃ error stopped, atom cursor = .failed error stopped
            ∧ Refused cursor error stopped := by
  rw [atom_apply]
  cases kind : cursor.current.kind with
  | identifier => exact .inl ⟨rfl, rfl⟩
  | boolean =>
      exact .inr (.inl ⟨.inr rfl, by simp [Place.awaitValue, kind], _, by simp, rfl⟩)
  | number =>
      by_cases finite : (numberOf cursor.current.text).isFinite = true
      · simp only [finite, if_true]
        exact .inr (.inl ⟨.inl trivial, by simp [Place.awaitValue, kind, finite], _, by simp, rfl⟩)
      · simp only [finite, if_false, Bool.false_eq_true]
        exact .inr (.inr ⟨by simp, by simp [Place.awaitValue, kind, finite], _, _, rfl,
          .number kind, .inr rfl⟩)
  | functionKeyword | letKeyword | typeKeyword | returnKeyword | equals | semicolon | colon
  | endOfFile | unknown =>
      exact .inr (.inr ⟨by simp, by simp [Place.awaitValue, kind], _, _, rfl,
        kind ▸ .unexpected, .inl rfl⟩)

theorem name_of_atom {cursor next : Cursor} {found : Identifier}
    (read : atom cursor = .done (.identifier found) next)
    : cursor.current.kind = .identifier ∧ found = cursor.current.name ∧ next = cursor.advance := by
  obtain ⟨token, reads, form, _⟩ := atom_done_iff.mp read
  obtain ⟨rfl, rfl⟩ := reads.current_of_kind
  cases form with
  | identifier kind => exact ⟨kind, rfl, rfl⟩

/-- A name is read if an identifier stands there, and otherwise the token there is refused. -/
theorem name_cases (cursor : Cursor)
    : cursor.current.kind = .identifier
        ∧ name cursor = .done cursor.current.name cursor.advance
      ∨ cursor.current.kind ≠ .identifier
        ∧ ∃ error stopped, name cursor = .failed error stopped
            ∧ Refused cursor error stopped := by
  simp only [name, bind_apply, current]
  rcases atom_cases (fun _ => true) cursor with
    ⟨kind, result⟩ | ⟨kind, _, leaf, other, result⟩ | ⟨kind, _, error, stopped, result, refused⟩
  · rw [result]
    exact .inl ⟨kind, rfl⟩
  · rw [result]
    refine .inr ⟨by rcases kind with kind | kind <;> simp [kind], ?_⟩
    cases leaf with
    | identifier found => exact absurd rfl (other found)
    | number | boolean => exact ⟨_, _, rfl, .unexpected, .inr rfl⟩
  · rw [result]
    exact .inr ⟨kind, error, stopped, rfl, refused⟩

/-- A check lets the allowed names pass and refuses the others with an error about them. -/
def Checks (allowed : String → Bool) (check : Identifier → Parser Unit) : Prop :=
  ∀ (token : Token) cursor,
    token.kind = .identifier
    → allowed token.text = true ∧ check token.name cursor = .done () cursor
      ∨ allowed token.text = false
        ∧ ∃ error, check token.name cursor = .failed error (cursor.report error)
            ∧ Blames error token

theorem tracked_name {allowed : String → Bool} {reached : Place} {check : Identifier → Parser Unit}
    {next : Identifier → Parser α} (ready : place ≠ .closed)
    (awaits : ∀ token, place.next seen token = Place.awaitName allowed reached token)
    (checks : Checks allowed check)
    (later : ∀ found middle, (next found middle).Tracked seen reached middle post)
    : ((name >>= fun found => check found >>= fun _ => next found) cursor).Tracked seen place
        cursor post := by
  have leads := awaits cursor.current
  unfold Place.awaitName at leads
  rw [bind_apply]
  rcases name_cases cursor with ⟨kind, result⟩ | ⟨kind, error, stopped, result, refusal⟩
  · rw [result]
    simp only [bind_apply]
    rcases checks cursor.current cursor.advance kind with
      ⟨passes, done⟩ | ⟨fails, error, refused, blames⟩
    · rw [done]
      rw [if_pos ⟨kind, passes⟩] at leads
      exact (later _ _).behind (Cursor.reads_current cursor (by simp [kind]))
        (by simp [Place.run, leads])
    · rw [refused]
      rw [if_neg (fun both => Bool.false_ne_true (fails.symm.trans both.2))] at leads
      exact .stuck ready leads ⟨blames, .inr rfl⟩
  · rw [result]
    rw [if_neg (fun both => kind both.1)] at leads
    exact .stuck ready leads refusal

end

-----------------------------------------------------------------------------------------
-- Names
-----------------------------------------------------------------------------------------

section

variable {seen : String → Bool} {visible : Visibility} {cursor : Cursor}

theorem checks_nothing : Checks (fun _ => true) fun _ => pure () :=
  fun _ _ _ => .inl ⟨rfl, rfl⟩

variable (answers : ∀ name, visible name = .ok (seen name))

include answers

theorem checks_free : Checks (fun name => !seen name) (checkFree visible) := by
  intro token cursor kind
  simp only [checkFree, bind_apply, ask, answers, Token.name]
  cases seen token.text with
  | false => exact .inl ⟨rfl, rfl⟩
  | true => exact .inr ⟨rfl, _, rfl, .redeclared kind⟩

theorem checks_visible (isType : Bool)
    : Checks seen fun name => checkVisible visible name isType := by
  intro token cursor kind
  simp only [checkVisible, bind_apply, ask, answers, Token.name]
  cases seen token.text with
  | false => exact .inr ⟨rfl, _, rfl, .undeclared kind⟩
  | true => exact .inl ⟨rfl, rfl⟩

-----------------------------------------------------------------------------------------
-- Statements
-----------------------------------------------------------------------------------------

theorem tracked_ascription
    : (ascription visible cursor).Tracked seen .afterName cursor fun _ next reached =>
        reached = .afterTypeName ∨ reached = .afterName ∧ next.current.kind ≠ .colon := by
  unfold ascription
  rw [bind_apply, accept_apply]
  by_cases colon : cursor.current.kind = .colon
  · rw [if_pos colon]
    have reads := Cursor.reads_current cursor (by simp [colon])
    have ran : Place.afterName.run seen [cursor.current] = some .afterColon := by
      simp [Place.run, Place.next, Place.awaitKind, colon]
    apply Step.Tracked.behind reads ran
    exact tracked_name (by simp) (fun _ => rfl) (checks_visible answers true)
      fun _ _ => .pure (.inl rfl)
  · rw [if_neg colon]
    exact .pure (.inr ⟨rfl, colon⟩)

/-- A statement can end at a place: of what could come there, only its semicolon is left. -/
def Ended (reached : Place) (next : Cursor) : Prop :=
  reached = .complete ∨ reached = .afterTarget ∧ next.current.kind ≠ .equals

/-- An expression is tracked from every place at which a value can start. -/
theorem tracked_expressionFrom {place : Place} (ready : place ≠ .closed) {targets : List Link}
    (alike : place.next seen cursor.current = Place.awaitValue seen cursor.current)
    : (expressionFrom visible targets cursor).Tracked seen place cursor fun _ next reached =>
        Ended reached next := by
  -- The induction follows the loop; behind each target a value has to start.
  fun_induction expressionFrom visible targets cursor generalizing place with
  | case1 targets cursor found middle first answer equals ih =>
      obtain ⟨kind, rfl, rfl⟩ := name_of_atom first
      have leads := alike.trans (Place.awaitValue_of_name kind)
      rw [if_pos (by simpa [answers, Token.name] using answer)] at leads
      have goes : Place.afterTarget.next seen cursor.advance.current = some .value := by
        simp [Place.next, Place.awaitKind, equals]
      have ran : place.run seen [cursor.current, cursor.advance.current] = some .value := by
        simp [Place.run, leads, goes]
      have target := Cursor.reads_current cursor (by simp [kind])
      have mark := Cursor.reads_current cursor.advance (by simp [equals])
      exact (ih (by simp) rfl).behind (target.trans mark) ran
  | case2 targets cursor found middle first answer differs =>
      obtain ⟨kind, rfl, rfl⟩ := name_of_atom first
      have leads := alike.trans (Place.awaitValue_of_name kind)
      rw [if_pos (by simpa [answers, Token.name] using answer)] at leads
      exact .read (by simp [kind]) leads (.inr ⟨rfl, differs⟩)
  | case3 targets cursor found middle first answer =>
      obtain ⟨kind, rfl, rfl⟩ := name_of_atom first
      have none := alike.trans (Place.awaitValue_of_name kind)
      rw [if_neg (by simpa [answers, Token.name] using answer)] at none
      exact .stuck ready none ⟨.undeclared kind, .inr rfl⟩
  | case4 targets cursor found middle first fault answer => simp [answers] at answer
  | case5 targets cursor leaf middle plain first =>
      rcases atom_cases seen cursor with
        ⟨_, result⟩ | ⟨kind, leads, other, _, result⟩ | ⟨_, _, error, stopped, result, _⟩
      · obtain ⟨rfl, _⟩ := Step.done.inj (first.symm.trans result)
        exact absurd rfl (plain _)
      · obtain ⟨rfl, rfl⟩ := Step.done.inj (first.symm.trans result)
        refine .read ?_ (alike.trans leads) (.inl rfl)
        rcases kind with kind | kind <;> simp [kind]
      · simp [first] at result
  | case6 targets cursor error stopped first =>
      rcases atom_cases seen cursor with
        ⟨_, result⟩ | ⟨_, _, leaf, _, result⟩ | ⟨_, none, other, _, result, refused⟩
      · simp [first] at result
      · simp [first] at result
      · obtain ⟨rfl, rfl⟩ := Step.failed.inj (first.symm.trans result)
        exact .stuck ready (alike.trans none) refused
  | case7 targets cursor fault first =>
      rcases atom_cases seen cursor with
        ⟨_, result⟩ | ⟨_, _, leaf, _, result⟩ | ⟨_, _, other, _, result, _⟩ <;>
        simp [first] at result

/-- Behind an equals sign comes the value of a binding. -/
theorem tracked_binding (location : Location) (keyword : cursor.current.kind = .letKeyword)
    : (binding visible location cursor).Tracked seen .start cursor fun _ next reached =>
        Ended reached next := by
  have reads := Cursor.reads_current cursor (by simp [keyword])
  have ran : Place.start.run seen [cursor.current] = some .afterLet := by
    simp [Place.run, Place.next, Place.awaitKind, keyword]
  unfold binding
  rw [bind_apply]
  apply Step.Tracked.behind reads ran
  apply tracked_name (by simp) (fun _ => rfl) (checks_free answers)
  intro declared afterName
  apply (tracked_ascription answers).bind
  intro annotated afterType reached which
  have equals : (expect .equals afterType).Tracked seen reached afterType
      fun _ _ final => final = .value := by
    apply tracked_expect (by simp)
    · rcases which with rfl | ⟨rfl, _⟩ <;> simp
    · intro token kind
      rcases which with rfl | ⟨rfl, _⟩ <;>
        simp [Place.next, Place.awaitKind, kind]
    · intro other
      rcases which with rfl | ⟨rfl, plain⟩
      · simp [Place.next, Place.awaitKind, other]
      · simp [Place.next, Place.awaitKind, other, plain]
  apply equals.bind
  intro _ afterMark final same
  subst same
  exact (tracked_expressionFrom answers (by simp) rfl).bind fun _ _ _ ended => .pure ended

theorem tracked_typeAlias (location : Location) (keyword : cursor.current.kind = .typeKeyword)
    : (typeAlias visible location cursor).Tracked seen .start cursor fun _ next reached =>
        Ended reached next := by
  have reads := Cursor.reads_current cursor (by simp [keyword])
  have ran : Place.start.run seen [cursor.current] = some .afterType := by
    simp [Place.run, Place.next, Place.awaitKind, keyword]
  unfold typeAlias
  rw [bind_apply]
  apply Step.Tracked.behind reads ran
  apply tracked_name (by simp) (fun _ => rfl) (checks_free answers)
  intro declared afterName
  have equals : (expect .equals afterName).Tracked seen .afterAlias afterName
      fun _ _ final => final = .aliased := by
    apply tracked_expect (by simp) (by simp)
    · intro token kind
      simp [Place.next, Place.awaitKind, kind]
    · intro other
      simp [Place.next, Place.awaitKind, other]
  apply equals.bind
  intro _ afterMark final same
  subst same
  exact tracked_name (by simp) (fun _ => rfl) checks_nothing fun _ _ => .pure (.inl rfl)

theorem tracked_statementBody
    : (statementBody visible cursor).Tracked seen .start cursor fun _ next reached =>
        Ended reached next := by
  rw [statementBody_apply]
  split
  · next keyword =>
      exact (tracked_binding answers _ keyword).bind fun _ _ _ ended => .pure ended
  · next keyword =>
      exact (tracked_typeAlias answers _ keyword).bind fun _ _ _ ended => .pure ended
  · next notLet notType =>
      have alike : Place.start.next seen cursor.current
          = Place.awaitValue seen cursor.current := by
        simp [Place.next, Place.awaitKind, if_neg notLet, if_neg notType]
      exact (tracked_expressionFrom answers (by simp) alike).bind fun _ _ _ ended => .pure ended

omit answers in
/-- An attempt is a parser of the statement and its semicolon, but for what it declares. -/
theorem step_of_statement {outcome : Outcome} (result : statement visible cursor = .ok outcome)
    : (statementBody visible >>= fun found => expect .semicolon >>= fun _ => pure found) cursor
      = outcome.step := by
  unfold statement at result
  rw [bind_apply]
  cases body : statementBody visible cursor with
  | faulted fault => simp [body] at result
  | failed error stopped =>
      simp only [body, Except.ok.injEq] at result
      subst result
      rfl
  | done found middle =>
      simp only [body, bind_apply] at result ⊢
      cases mark : expect .semicolon middle with
      | faulted fault => simp [mark] at result
      | failed error stopped | done _ next =>
          simp only [mark, Except.ok.injEq] at result
          subst result
          rfl

/-- An attempt that reads a statement goes from its start to behind its semicolon. One that fails
has read up to a token that cannot come next, and has refused it.
-/
theorem tracked_statement {outcome : Outcome} (result : statement visible cursor = .ok outcome)
    : outcome.step.Tracked seen .start cursor fun _ _ reached => reached = .closed := by
  rw [← step_of_statement result]
  apply (tracked_statementBody answers).bind
  intro found middle reached ended
  have semicolon : (expect .semicolon middle).Tracked seen reached middle
      fun _ _ final => final = .closed := by
    apply tracked_expect (by simp)
    · rcases ended with rfl | ⟨rfl, _⟩ <;> simp
    · intro token kind
      rcases ended with rfl | ⟨rfl, _⟩ <;>
        simp [Place.next, Place.awaitKind, kind]
    · intro other
      rcases ended with rfl | ⟨rfl, differs⟩
      · simp [Place.next, Place.awaitKind, other]
      · simp [Place.next, Place.awaitKind, other, differs]
  exact semicolon.bind fun _ _ _ same => .pure same

end

-----------------------------------------------------------------------------------------
-- Sentences
-----------------------------------------------------------------------------------------

section

variable {seen : String → Bool} {names : Set String}
  (tells : ∀ name, seen name = true ↔ name ∈ names)

include tells

theorem decides_of_tells : Decides (fun name => .ok (seen name)) names := by
  intro name
  rw [← tells]
  cases known : seen name with
  | true => exact .inl ⟨rfl, congrArg _ known⟩
  | false => exact .inr ⟨by simp, congrArg _ known⟩

/-- The attempt at a sentence reads all of it, and so does the run over its places. -/
theorem run_of_sentence {tokens : List Token} (sentence : Sentence names tokens)
    : Place.start.run seen tokens = some .closed := by
  obtain ⟨body, mark, found, rfl, form, semicolon, admissible⟩ := sentence
  have decides := decides_of_tells tells
  have ahead : (Cursor.ofTokens none (body ++ [mark]) 0).rest = body ++ [mark] := rfl
  obtain ⟨middle, reads, left⟩ := Cursor.exists_reads ahead
  have current := Cursor.current_eq_of_rest left
  have ends : ∀ value, found.value? = some value → EndsBefore value middle := by
    intro value _ name _
    rw [current, semicolon]
    simp
  obtain ⟨outcome, result, attempted⟩ := exists_attempted decides (.ofTokens none (body ++ [mark]) 0)
  have tracked := tracked_statement (fun _ => rfl) result
  rw [attempted.result_of_ahead decides reads ⟨form, admissible, ends⟩
    (by rw [current, semicolon])] at tracked
  obtain ⟨read, _, all, ran, rfl⟩ := tracked
  have rest := all.rest_eq
  rw [Cursor.advance_rest, left, ahead, List.tail_cons, List.append_nil] at rest
  rwa [rest]

omit tells in
/-- A parser that fails stands before tokens that do not lead behind a semicolon. -/
theorem run_ne_closed_of_failed {α : Type} {cursor stopped : Cursor} {place : Place}
    {error : ParseError} {post : α → Cursor → Place → Prop}
    (tracked : (Step.failed error stopped : Step α).Tracked seen place cursor post)
    : place.run seen cursor.rest ≠ some .closed := by
  obtain ⟨read, middle, reached, reads, ran, ready, none, _⟩ := tracked
  rw [reads.rest_eq]
  cases rest : middle.rest with
  | nil => simpa [ran] using ready
  | cons token later =>
      rw [Cursor.current_eq_of_rest rest] at none
      simp [Place.run_of_next_eq_none ran none]

/-- Tokens that lead behind a semicolon are a sentence, since an attempt at them cannot fail and
reads them all.
-/
theorem sentence_of_run {tokens : List Token} (ran : Place.start.run seen tokens = some .closed)
    : Sentence names tokens := by
  obtain ⟨outcome, result, attempted⟩ :=
    exists_attempted (decides_of_tells tells) (.ofTokens none tokens 0)
  have tracked := tracked_statement (fun _ => rfl) result
  cases attempted with
  | @read body found middle reads whole semicolon =>
      have mark := Cursor.reads_current middle (by simp [semicolon])
      have ahead : tokens = (body ++ [middle.current]) ++ middle.advance.rest :=
        (reads.trans mark).rest_eq
      obtain ⟨read, _, all, closed, rfl⟩ := tracked
      obtain rfl : read = body ++ [middle.current] :=
        List.append_cancel_right (all.rest_eq.symm.trans (reads.trans mark).rest_eq)
      refine ⟨body, middle.current, found, ?_, whole.form, semicolon, whole.admissible⟩
      cases rest : middle.advance.rest with
      | nil => rwa [rest, List.append_nil] at ahead
      | cons token later =>
          rw [ahead, rest, Place.run_of_next_eq_none closed rfl] at ran
          cases ran
  | unterminated | broken => exact absurd ran (run_ne_closed_of_failed tracked)

end

end Parse

end LetLang

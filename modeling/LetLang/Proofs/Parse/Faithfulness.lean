import LetLang.Proofs.Parse.SharedPositions
import LetLang.Proofs.Token.Tiling

/-! Locations are faithful to the source. Every name and literal of a parsed tree stands in the
source where its location says, as one token, and so does whatever an error quotes.
-/

namespace LetLang

open LetLang.Text LetLang.Token

/-- The bytes of a source that a span covers. -/
def Span.slice (span : Span) (source : String) : List UInt8 :=
  ((bytes source.toList).drop span.start).take span.length

/-- The bytes at the location of a name are its text, and they are one identifier of the source. -/
def Identifier.SpelledIn (source : String) (name : Identifier) : Prop :=
  (Parse.nameSpan name).slice source = bytes name.text.toList
  ∧ ∃! token,
      token ∈ tokenize source.toList
      ∧ token.kind = .identifier
      ∧ token.span = Parse.nameSpan name

/-- A name is spelled in the source, and a literal is the value of a token at its location. -/
def Atom.SpelledIn (source : String) : Atom → Prop
  | identifier name => name.SpelledIn source
  | number location value =>
      ∃ token ∈ tokenize source.toList,
        token.kind = .number ∧ token.start = location ∧ Parse.numberOf token.text = value
  | boolean location value =>
      ∃ token ∈ tokenize source.toList,
        token.kind = .boolean
        ∧ token.start = location
        ∧ token.text = if value then "true" else "false"

/-- All parts of an expression are spelled in the source, and each assignment is located at its
target.
-/
def Expr.SpelledIn (source : String) : Expr → Prop
  | atom leaf => leaf.SpelledIn source
  | assignment link value =>
      link.location = link.target.location
      ∧ link.target.SpelledIn source
      ∧ value.SpelledIn source

/-- All parts of a declaration are spelled in the source. -/
def Declaration.SpelledIn (source : String) : Declaration → Prop
  | binding _ name ascription initializer =>
      name.SpelledIn source
      ∧ (∀ typeName ∈ ascription, typeName.SpelledIn source)
      ∧ initializer.SpelledIn source
  | typeAlias _ name aliased => name.SpelledIn source ∧ aliased.SpelledIn source

/-- All parts of a statement are spelled in the source. -/
def Statement.SpelledIn (source : String) : Statement → Prop
  | expression _ value => value.SpelledIn source
  | declaration declared => declared.SpelledIn source

namespace ParseError

/-- The text or the name that an error quotes. -/
def quoted : ParseError → String
  | unexpectedToken _ _ _ text => text
  | invalidNumber _ text => text
  | redeclared _ name => name
  | undeclared _ name _ => name

/-- The kind of token that an error is about. -/
def tokenKind : ParseError → Kind
  | unexpectedToken _ _ found _ => found
  | invalidNumber .. => .number
  | redeclared .. | undeclared .. => .identifier

/-- An error has the span, the kind and the text of a token or of the end of file, and quotes the
bytes that the span covers.
-/
def SpelledIn (source : String) (error : ParseError) : Prop :=
  error.span.slice source = bytes error.quoted.toList
  ∧ ∃ token ∈ tokenize source.toList ++ [endOfFile (byteLength source.toList)],
      error.span = token.span ∧ error.tokenKind = token.kind ∧ error.quoted = token.text

end ParseError

-----------------------------------------------------------------------------------------
-- Trees of tokens
-----------------------------------------------------------------------------------------

/-- No two tokens of a text start at one position. -/
theorem Token.eq_of_start_eq {text : List Char} {left right : Token}
    (member : left ∈ tokenize text) (other : right ∈ tokenize text)
    (same : left.start = right.start)
    : left = right := by
  have starts : ((tokenize text).map Token.start).Nodup :=
    List.pairwise_map.mpr ((tokenize_sorted text).imp Nat.ne_of_lt)
  exact List.inj_on_of_nodup_map starts member other same

section

variable {source : String} {token : Token}

theorem Token.slice_span (member : token ∈ tokenize source.toList)
    : token.span.slice source = bytes token.text.toList :=
  bytes_of_mem_tokenize member

theorem Token.nameSpan_name (member : token ∈ tokenize source.toList)
    : Parse.nameSpan token.name = token.span := by
  rw [Parse.nameSpan, Token.name, ← span_length_of_mem_scanAll member]
  rfl

theorem Token.name_spelledIn (member : token ∈ tokenize source.toList)
    (kind : token.kind = .identifier)
    : token.name.SpelledIn source := by
  rw [Identifier.SpelledIn, nameSpan_name member]
  refine ⟨slice_span member, token, ⟨member, kind, rfl⟩, ?_⟩
  intro other found
  obtain ⟨among, _, span⟩ := found
  exact eq_of_start_eq among member (congrArg Span.start span)

theorem Token.eq_of_ofWord?_boolean {word : String}
    (kind : (Kind.ofWord? word).getD .identifier = .boolean)
    : word = "true" ∨ word = "false" := by
  by_contra other
  simp only [Kind.ofWord?, if_neg other] at kind
  (repeat' split at kind) <;> cases kind

/-- A boolean is one of two words. -/
theorem Token.text_of_boolean (member : token ∈ tokenize source.toList)
    (kind : token.kind = .boolean)
    : token.text = if token.text == "true" then "true" else "false" := by
  obtain ⟨_, _, _, _, _, _, munched⟩ := exists_split_of_mem_tokenize member
  generalize token.kind = found, token.text = text at munched kind
  cases munched with
  | word => rcases eq_of_ofWord?_boolean kind with rfl | rfl <;> rfl
  | number | equals | semicolon | colon | unknown => cases kind

namespace Grammar

theorem AtomForm.spelledIn {found : Atom} (form : AtomForm token found)
    (member : token ∈ tokenize source.toList)
    : found.SpelledIn source := by
  cases form with
  | identifier kind => exact name_spelledIn member kind
  | number kind => exact ⟨token, member, kind, rfl, rfl⟩
  | boolean kind => exact ⟨token, member, kind, rfl, text_of_boolean member kind⟩

variable {tokens : List Token}

theorem ExprForm.spelledIn {value : Expr} (form : ExprForm tokens value)
    (among : tokens ⊆ tokenize source.toList)
    : value.SpelledIn source := by
  induction form with
  | atom leaf => exact leaf.spelledIn (among List.mem_cons_self)
  | assignment name _ _ ih =>
      refine ⟨rfl, name_spelledIn (among List.mem_cons_self) name, ih ?_⟩
      intro token member
      exact among (List.mem_cons_of_mem _ (List.mem_cons_of_mem _ member))

/-- The tree of a derivation is spelled where its tokens are. -/
theorem StatementForm.spelledIn {statement : Statement} (form : StatementForm tokens statement)
    (among : tokens ⊆ tokenize source.toList)
    : statement.SpelledIn source := by
  cases form with
  | binding _ name _ right =>
      refine ⟨name_spelledIn (among (by simp)) name, by simp, right.spelledIn ?_⟩
      exact fun token member => among (by simp [member])
  | typedBinding _ name _ typeName _ right =>
      refine ⟨name_spelledIn (among (by simp)) name, ?_, right.spelledIn ?_⟩
      · intro ascribed same
        cases same
        exact name_spelledIn (among (by simp)) typeName
      · exact fun token member => among (by simp [member])
  | typeAlias _ name _ aliased =>
      exact ⟨name_spelledIn (among (by simp)) name, name_spelledIn (among (by simp)) aliased⟩
  | expression whole => exact whole.spelledIn among

end Grammar

end

-----------------------------------------------------------------------------------------
-- What an attempt leaves
-----------------------------------------------------------------------------------------

theorem Cursor.StandsAt.extract_eq {cursor next : Cursor} {tokens read : List Token} {index : Nat}
    (stands : cursor.StandsAt tokens index) (reads : cursor.Reads read next)
    : tokens.extract index (index + read.length) = read := by
  rw [List.extract_eq_take_drop, ← stands.rest, reads.rest_eq, Nat.add_sub_cancel_left,
    List.take_left]

theorem Cursor.StandsAt.read_subset {cursor next : Cursor} {tokens read : List Token} {index : Nat}
    (stands : cursor.StandsAt tokens index) (reads : cursor.Reads read next)
    : read ⊆ tokens := by
  intro token member
  apply List.mem_of_mem_drop (i := index)
  rw [← stands.rest, reads.rest_eq]
  exact List.mem_append_left _ member

namespace Parse

open LetLang.Grammar

section

variable {made : Attempt} {source : String} {scope first : Nat}

/-- An attempt that has installed a declaration has read its tokens, if not its semicolon. -/
theorem Attempt.From.exists_form_of_declared {tree : ScopeTree} {cursor : Cursor}
    (attempted : made.From tree scope cursor) {declared : Declaration}
    (installed : made.outcome.declared = some declared)
    : ∃ read middle, cursor.Reads read middle ∧ StatementForm read (.declaration declared) := by
  have outcome := attempted.outcome
  generalize made.outcome = result at outcome installed
  cases outcome with
  | read reads whole | unterminated reads whole =>
      rw [← Statement.declaration?_eq_some_iff.mp installed]
      exact ⟨_, _, reads, whole.form⟩
  | broken => cases installed

theorem Attempt.MadeIn.attempted (attempted : made.MadeIn source scope first)
    : made.From made.before scope made.start :=
  from_of_attempt attempted.wellFormed attempted.within attempted.result

theorem Attempt.MadeIn.spelledIn_of_declared (attempted : made.MadeIn source scope first)
    {declared : Declaration} (installed : made.outcome.declared = some declared)
    : declared.SpelledIn source := by
  obtain ⟨read, middle, reads, form⟩ := attempted.attempted.exists_form_of_declared installed
  exact form.spelledIn (attempted.stands.read_subset reads)

/-- The statement of an attempt is derived from the tokens at which the attempt starts. -/
theorem Attempt.MadeIn.exists_form (attempted : made.MadeIn source scope first)
    {statement : Statement} (found : made.statement? = some statement)
    : ∃ next, StatementForm ((tokenize source.toList).extract first next) statement := by
  obtain ⟨read, middle, reads, whole, _⟩ := attempted.attempted.reads_of_statement? found
  refine ⟨first + read.length, ?_⟩
  rw [attempted.stands.extract_eq reads]
  exact whole.form

theorem Attempt.MadeIn.spelledIn_of_statement? (attempted : made.MadeIn source scope first)
    {statement : Statement} (found : made.statement? = some statement)
    : statement.SpelledIn source := by
  obtain ⟨read, middle, reads, whole, _⟩ := attempted.attempted.reads_of_statement? found
  exact whole.form.spelledIn (attempted.stands.read_subset reads)

/-- An error is spelled where the token is that it is about. -/
theorem Blames.spelledIn {error : ParseError} {token : Token} (blames : Blames error token)
    (member : token ∈ tokenize source.toList ++ [endOfFile (byteLength source.toList)])
    : error.SpelledIn source := by
  obtain ⟨index, found⟩ := List.mem_iff_getElem?.mp member
  have span := blames.span_eq (span_length_of_getElem? found)
  have kind : error.tokenKind = token.kind := by
    cases blames with
    | unexpected => rfl
    | number kind | redeclared kind | undeclared kind => exact kind.symm
  have text : error.quoted = token.text := by cases blames <;> rfl
  refine ⟨?_, token, member, span, kind, text⟩
  rw [span, text]
  rcases List.mem_append.mp member with among | last
  · exact Token.slice_span among
  · rw [List.mem_singleton.mp last]
    rfl

theorem Attempt.MadeIn.spelledIn_of_error? (attempted : made.MadeIn source scope first)
    {error : ParseError} (failed : made.error? = some error)
    : error.SpelledIn source := by
  obtain ⟨_, _, _, refuses⟩ := attempted.exists_refusesAt failed
  exact refuses.blames.spelledIn (List.mem_of_getElem? refuses.found)

end

/-- What an error of a parse quotes stands in the source. -/
theorem spelledIn_of_mem_errors {tree : ScopeTree} (wellFormed : tree.WellFormed) {scope : Nat}
    (inside : scope < tree.size) {file : Option String} {source : String} {session : Session}
    (parsed : parseIn tree scope file source = .ok session) {error : ParseError}
    (member : error ∈ session.errors)
    : error.SpelledIn source := by
  rw [(run_of_parseIn wellFormed inside parsed).session_reports.1] at member
  obtain ⟨made, among, failed⟩ := List.mem_filterMap.mp member
  obtain ⟨_, attempted⟩ := exists_madeIn wellFormed inside parsed among
  exact attempted.spelledIn_of_error? failed

/-- Statements are located at the starts of their attempts, which move on. -/
theorem InOrder.statements_sorted {session : Session} (order : InOrder session.attempts)
    (located
      : ∀ made ∈ session.attempts, ∀ statement,
          made.statement? = some statement → statement.location = made.start.current.start)
    : session.tree.statements.Pairwise fun left right => left.location < right.location := by
  rw [Session.tree, List.pairwise_filterMap]
  apply order.apart.imp_of_mem
  intro left right among alsoAmong apart one found two alsoFound
  rw [located left among one found, located right alsoAmong two alsoFound]
  exact Nat.lt_of_lt_of_le (order.forward left among) apart

/-- All that a parse leaves is faithful to the source: the trees of the module, the bindings that
are new in the scopes, and the errors. A statement is located at the first of the tokens that it
is derived from, and each one behind those before it.
-/
theorem parseIn_spelledIn {tree : ScopeTree} (wellFormed : tree.WellFormed) {scope : Nat}
    (inside : scope < tree.size) (file : Option String) (source : String)
    : let tokens := tokenize source.toList
      ∃ session, parseIn tree scope file source = .ok session
        ∧ (∀ statement ∈ session.tree.statements, statement.SpelledIn source)
        ∧ (∀ index name declared,
            session.scopes.own? index name = some declared
            → tree.own? index name = some declared
              ∨ declared.name.text = name ∧ declared.SpelledIn source)
        ∧ (∀ made ∈ session.attempts, ∀ statement,
            made.statement? = some statement
            → ∃ first next opening,
                made.start.StandsAt tokens first
                ∧ StatementForm (tokens.extract first next) statement
                ∧ tokens[first]? = some opening
                ∧ statement.location = opening.start)
        ∧ session.tree.statements.Pairwise (fun left right => left.location < right.location)
        ∧ ∀ error ∈ session.errors, error.SpelledIn source := by
  obtain ⟨session, parsed, _, run⟩ := exists_session wellFormed inside file source
  have madeIn : ∀ made ∈ session.attempts, ∃ first, made.MadeIn source scope first :=
    fun _ member => exists_madeIn wellFormed inside parsed member
  refine ⟨session, parsed, ?_, ?_, ?_, ?_, ?_⟩
  · intro statement member
    obtain ⟨made, among, found⟩ := List.mem_filterMap.mp member
    obtain ⟨_, attempted⟩ := madeIn made among
    exact attempted.spelledIn_of_statement? found
  · intro index name declared bound
    by_cases active : index = scope
    · subst active
      rcases (run.own?_iff name declared).mp bound with old | ⟨member, text⟩
      · exact .inl old
      · obtain ⟨made, among, installed⟩ := List.mem_filterMap.mp member
        obtain ⟨_, attempted⟩ := madeIn made among
        exact .inr ⟨text, attempted.spelledIn_of_declared installed⟩
    · rw [ScopeTree.own?, run.grows.others index active] at bound
      exact .inl bound
  · intro made member statement found
    obtain ⟨first, attempted⟩ := madeIn made member
    obtain ⟨next, form⟩ := attempted.exists_form found
    have opening := List.getElem?_eq_getElem attempted.more
    refine ⟨first, next, _, attempted.stands, form, opening, ?_⟩
    rw [attempted.attempted.location_of_statement? found, attempted.stands.current opening]
  · apply (inOrder_of_parseIn wellFormed inside parsed).statements_sorted
    intro made member statement found
    obtain ⟨_, attempted⟩ := madeIn made member
    exact attempted.attempted.location_of_statement? found
  · exact fun error member => spelledIn_of_mem_errors wellFormed inside parsed member

theorem parseIn_spelledIn_inner
    : let tree := (ScopeTree.new.push ScopeTree.root).1
      let source := "type é = t; let a = true; let b: a = a = 12; \t🙂 let c = b; function"
      let tokens := tokenize source.toList
      (tree.WellFormed ∧ 1 < tree.size)
      ∧ ∃ session, parseIn tree 1 none source = .ok session
        ∧ (∀ statement ∈ session.tree.statements, statement.SpelledIn source)
        ∧ (∀ index name declared,
            session.scopes.own? index name = some declared
            → tree.own? index name = some declared
              ∨ declared.name.text = name ∧ declared.SpelledIn source)
        ∧ (∀ made ∈ session.attempts, ∀ statement,
            made.statement? = some statement
            → ∃ first next opening,
                made.start.StandsAt tokens first
                ∧ StatementForm (tokens.extract first next) statement
                ∧ tokens[first]? = some opening
                ∧ statement.location = opening.start)
        ∧ session.tree.statements.Pairwise (fun left right => left.location < right.location)
        ∧ ∀ error ∈ session.errors, error.SpelledIn source :=
  ⟨by decide, parseIn_spelledIn (by decide) (by decide) none _⟩

end Parse

end LetLang

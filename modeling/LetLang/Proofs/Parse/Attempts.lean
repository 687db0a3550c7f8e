import LetLang.Parse.Session
import LetLang.Proofs.Parse.Statements
import LetLang.Proofs.Scope.Visibility

/-! What one attempt at a statement can come to, and runs of attempts. Every property of a
whole parse is proved by induction over such a run.
-/

namespace LetLang

/-- What could have stood in the place of the token that an error is about. -/
def ParseError.expected? : ParseError → Option Expected
  | unexpectedToken _ expected _ _ => some expected
  | invalidNumber .. | redeclared .. | undeclared .. => none

/-- The error of a statement whose semicolon is missing at the cursor. -/
def Cursor.unterminated (cursor : Cursor) : ParseError :=
  .unexpectedToken cursor.current.span (.token .semicolon) cursor.current.kind
    cursor.current.text

namespace Parse

open LetLang.Parse.Parser LetLang.Grammar

-----------------------------------------------------------------------------------------
-- Failure of a parser
-----------------------------------------------------------------------------------------

/-- A step from a cursor ends at a value or at an error that has just been reported, behind
some tokens, and never at a fault. Its error does not ask for a semicolon.
-/
def Step.Settled {α : Type} (cursor : Cursor) : Step α → Prop
  | .done _ next => ∃ read, cursor.Reads read next
  | .failed error stopped =>
      error.expected? ≠ some (.token .semicolon)
      ∧ ∃ read middle, cursor.Reads read middle ∧ stopped = middle.report error
  | .faulted _ => False

/-- A parser whose steps are settled. -/
def Settles {α : Type} (parser : Parser α) : Prop :=
  ∀ cursor, (parser cursor).Settled cursor

theorem Step.Settled.behind {α : Type} {cursor middle : Cursor} {read : List Token}
    {step : Step α} (reads : cursor.Reads read middle) (settled : step.Settled middle)
    : step.Settled cursor := by
  cases step with
  | done value next =>
      obtain ⟨more, further⟩ := settled
      exact ⟨_, reads.trans further⟩
  | failed error stopped =>
      obtain ⟨other, more, last, further, same⟩ := settled
      exact ⟨other, _, last, reads.trans further, same⟩
  | faulted fault => exact settled

theorem Settles.pure {α : Type} (value : α) : Settles (Pure.pure value : Parser α) :=
  fun _ => ⟨[], .nil⟩

theorem Settles.bind {α β : Type} {parser : Parser α} {next : α → Parser β}
    (first : Settles parser) (second : ∀ value, Settles (next value))
    : Settles (parser >>= next) := by
  intro cursor
  have one := first cursor
  rw [bind_apply]
  cases result : parser cursor with
  | done value middle =>
      rw [result] at one
      obtain ⟨read, reads⟩ := one
      exact (second value middle).behind reads
  | failed error stopped =>
      rw [result] at one
      exact one
  | faulted fault =>
      rw [result] at one
      exact one

theorem settles_current : Settles current :=
  fun _ => ⟨[], .nil⟩

theorem settles_skip : Settles skip := by
  intro cursor
  change ∃ read, cursor.Reads read cursor.advance
  cases rest : cursor.rest with
  | nil => exact ⟨[], Cursor.reads_nil_iff.mpr (by simp [Cursor.advance, rest])⟩
  | cons token rest => exact ⟨[token], .single ‹_›⟩

theorem settles_fail {α : Type} {error : ParseError}
    (other : error.expected? ≠ some (.token .semicolon))
    : Settles (fail error : Parser α) :=
  fun cursor => ⟨other, [], cursor, .nil, rfl⟩

theorem settles_expect {kind : Token.Kind} (other : kind ≠ .semicolon) : Settles (expect kind) := by
  apply settles_current.bind
  intro token
  split
  · exact settles_skip
  · exact settles_current.bind fun _ => settles_fail (by simp [ParseError.expected?, other])

theorem settles_accept (kind : Token.Kind) : Settles (accept kind) := by
  apply settles_current.bind
  intro token
  split
  · exact settles_skip.bind fun _ => .pure true
  · exact .pure false

theorem settles_atom : Settles atom := by
  apply settles_current.bind
  intro token
  split
  · exact settles_skip.bind fun _ => .pure _
  · apply settles_skip.bind
    intro _
    split
    · exact .pure _
    · exact settles_fail (by simp [ParseError.expected?])
  · exact settles_skip.bind fun _ => .pure _
  · exact settles_current.bind fun _ => settles_fail (by simp [ParseError.expected?])

theorem settles_name : Settles name := by
  apply settles_current.bind
  intro token
  apply settles_atom.bind
  intro found
  split
  · exact .pure _
  · exact settles_fail (by simp [ParseError.expected?])

section

variable {visible : Visibility} {names : Set String}

theorem Decides.exists_answer (decides : Decides visible names) (name : String)
    : ∃ answer, visible name = .ok answer := by
  rcases decides name with ⟨_, answer⟩ | ⟨_, answer⟩
  · exact ⟨true, answer⟩
  · exact ⟨false, answer⟩

theorem settles_ask (decides : Decides visible names) (name : String)
    : Settles (ask (visible name)) := by
  obtain ⟨answer, known⟩ := decides.exists_answer name
  intro cursor
  simp only [ask, known]
  exact ⟨[], .nil⟩

theorem settles_checkVisible (decides : Decides visible names) (name : Identifier)
    (isType : Bool)
    : Settles (checkVisible visible name isType) := by
  apply (settles_ask decides _).bind
  intro found
  split
  · exact .pure _
  · exact settles_fail (by simp [ParseError.expected?])

theorem settles_checkFree (decides : Decides visible names) (name : Identifier)
    : Settles (checkFree visible name) := by
  apply (settles_ask decides _).bind
  intro found
  split
  · exact settles_fail (by simp [ParseError.expected?])
  · exact .pure _

theorem settles_expression (decides : Decides visible names) : Settles (expression visible) := by
  suffices general : ∀ targets cursor, (expressionFrom visible targets cursor).Settled cursor
    from general []
  intro targets cursor
  fun_induction expressionFrom visible targets cursor with
  | case1 targets cursor found middle first _ equals ih =>
      have settled := settles_atom cursor
      rw [first] at settled
      obtain ⟨read, reads⟩ := settled
      exact (ih.behind (Cursor.reads_current middle (by simp [equals]))).behind reads
  | case2 targets cursor found middle first =>
      have settled := settles_atom cursor
      rw [first] at settled
      exact settled
  | case3 targets cursor found middle first =>
      have settled := settles_atom cursor
      rw [first] at settled
      obtain ⟨read, reads⟩ := settled
      exact ⟨by simp [ParseError.expected?], read, middle, reads, rfl⟩
  | case4 targets cursor found middle first fault answer =>
      obtain ⟨known, other⟩ := decides.exists_answer found.text
      simp [other] at answer
  | case5 targets cursor leaf middle _ first =>
      have settled := settles_atom cursor
      rw [first] at settled
      exact settled
  | case6 targets cursor error stopped first =>
      have settled := settles_atom cursor
      rw [first] at settled
      exact settled
  | case7 targets cursor fault first =>
      have settled := settles_atom cursor
      rw [first] at settled
      exact settled

theorem settles_ascription (decides : Decides visible names) : Settles (ascription visible) := by
  apply (settles_accept _).bind
  intro found
  split
  · exact settles_name.bind fun _ => (settles_checkVisible decides _ _).bind fun _ => .pure _
  · exact .pure _

theorem settles_statementBody (decides : Decides visible names)
    : Settles (statementBody visible) := by
  apply settles_current.bind
  intro token
  split
  · refine Settles.bind ?_ fun _ => .pure _
    exact settles_skip.bind fun _ => settles_name.bind fun _ =>
      (settles_checkFree decides _).bind fun _ => (settles_ascription decides).bind fun _ =>
        (settles_expect (by simp)).bind fun _ => (settles_expression decides).bind fun _ =>
          .pure _
  · refine Settles.bind ?_ fun _ => .pure _
    exact settles_skip.bind fun _ => settles_name.bind fun _ =>
      (settles_checkFree decides _).bind fun _ => (settles_expect (by simp)).bind fun _ =>
        settles_name.bind fun _ => .pure _
  · exact (settles_expression decides).bind fun _ => .pure _

-----------------------------------------------------------------------------------------
-- One attempt
-----------------------------------------------------------------------------------------

/-- All that an attempt at a statement can come to where the given names are visible: the
statement is read, or only its semicolon is missing, or no statement lies ahead.
-/
inductive Attempted (names : Set String) (cursor : Cursor) : Outcome → Prop
  | read {read statement middle} (reads : cursor.Reads read middle)
    (whole : ReadsStatement names read statement middle)
    (semicolon : middle.current.kind = .semicolon)
    : Attempted names cursor ⟨.ok statement, statement.declaration?, middle.advance⟩
  | unterminated {read statement middle} (reads : cursor.Reads read middle)
    (whole : ReadsStatement names read statement middle)
    (missing : middle.current.kind ≠ .semicolon)
    : Attempted names cursor
        ⟨.error middle.unterminated, statement.declaration?,
          middle.report middle.unterminated⟩
  | broken {read middle error} (reads : cursor.Reads read middle)
    (other : error.expected? ≠ some (.token .semicolon))
    (hopeless
      : ∀ ahead statement next,
          cursor.Reads ahead next → ¬ReadsStatement names ahead statement next)
    : Attempted names cursor ⟨.error error, none, middle.report error⟩

/-- An attempt never faults where the visible names are known. -/
theorem exists_attempted (decides : Decides visible names) (cursor : Cursor)
    : ∃ outcome, statement visible cursor = .ok outcome ∧ Attempted names cursor outcome := by
  have settled := settles_statementBody decides cursor
  unfold statement
  cases body : statementBody visible cursor with
  | faulted fault =>
      rw [body] at settled
      exact settled.elim
  | failed error stopped =>
      rw [body] at settled
      obtain ⟨other, read, middle, reads, rfl⟩ := settled
      refine ⟨_, rfl, .broken reads other ?_⟩
      intro ahead found next further whole
      have done := (statementBody_done_iff decides).mpr ⟨ahead, further, whole⟩
      simp [body] at done
  | done found middle =>
      obtain ⟨read, reads, whole⟩ := (statementBody_done_iff decides).mp body
      simp only [expect_apply]
      by_cases semicolon : middle.current.kind = .semicolon
      · simp only [semicolon, if_true]
        exact ⟨_, rfl, .read reads whole semicolon⟩
      · simp only [semicolon, if_false, fail]
        exact ⟨_, rfl, .unterminated reads whole semicolon⟩

/-- A statement and a semicolon that lie ahead are read. -/
theorem Attempted.result_of_ahead {cursor middle : Cursor} {outcome : Outcome}
    {read : List Token} {found : Statement} (decides : Decides visible names)
    (attempted : Attempted names cursor outcome) (reads : cursor.Reads read middle)
    (whole : ReadsStatement names read found middle)
    (semicolon : middle.current.kind = .semicolon)
    : outcome = ⟨.ok found, found.declaration?, middle.advance⟩ := by
  have done := (statementBody_done_iff decides).mpr ⟨read, reads, whole⟩
  cases attempted with
  | read others again mark =>
      have same := (statementBody_done_iff decides).mpr ⟨_, others, again⟩
      obtain ⟨rfl, rfl⟩ := Step.done.inj (done.symm.trans same)
      rfl
  | unterminated others again missing =>
      have same := (statementBody_done_iff decides).mpr ⟨_, others, again⟩
      obtain ⟨rfl, rfl⟩ := Step.done.inj (done.symm.trans same)
      exact absurd semicolon missing
  | broken _ _ hopeless => exact absurd whole (hopeless _ _ _ reads)

end

/-- What an attempt declares becomes visible. -/
theorem names_install {tree after : ScopeTree} {scope : Nat} {declared : Option Declaration}
    (installed : install tree scope declared = .ok after)
    : after.names scope = tree.names scope ∪ Declaration.namesOf declared := by
  cases declared with
  | none =>
      cases installed
      simp [Declaration.namesOf]
  | some declared =>
      rw [ScopeTree.names_declare installed, Declaration.namesOf, Set.union_singleton]

theorem install_wellFormed {tree after : ScopeTree} {scope : Nat}
    {declared : Option Declaration} (wellFormed : tree.WellFormed)
    (installed : install tree scope declared = .ok after)
    : after.WellFormed ∧ after.size = tree.size := by
  cases declared with
  | none =>
      cases installed
      exact ⟨wellFormed, rfl⟩
  | some declared =>
      exact ⟨wellFormed.declare installed, ScopeTree.declare_size installed⟩

/-- An attempt made from a cursor with the scopes of a tree. -/
structure Attempt.From (made : Attempt) (tree : ScopeTree) (scope : Nat) (cursor : Cursor)
    : Prop where
  start : made.start = cursor
  before : made.before = tree
  outcome : Attempted (tree.names scope) cursor made.outcome
  installed : install tree scope made.outcome.declared = .ok made.after
  next : made.next = continuation cursor made.outcome

theorem exists_attempt {tree : ScopeTree} (wellFormed : tree.WellFormed) {scope : Nat}
    (inside : scope < tree.size) (cursor : Cursor)
    : ∃ made, attempt tree scope cursor = .ok made ∧ made.From tree scope cursor := by
  have decides : Decides (tree.isDeclared scope) (tree.names scope) :=
    ScopeTree.isDeclared_cases wellFormed inside
  obtain ⟨outcome, result, attempted⟩ := exists_attempted decides cursor
  have installs : ∃ after, install tree scope outcome.declared = .ok after := by
    cases outcome.declared with
    | none => exact ⟨tree, rfl⟩
    | some declared => exact ScopeTree.declare_eq_ok inside _ _
  obtain ⟨after, installed⟩ := installs
  refine ⟨⟨cursor, tree, outcome, after, continuation cursor outcome⟩, ?_, ?_⟩
  · simp [attempt, result, installed, bind, Except.bind, pure, Except.pure]
  · exact ⟨rfl, rfl, attempted, installed, rfl⟩

theorem Attempt.From.reads_of_statement? {made : Attempt} {tree : ScopeTree} {scope : Nat}
    {cursor : Cursor} (attempted : made.From tree scope cursor) {found : Statement}
    (result : made.statement? = some found)
    : ∃ tokens middle,
        cursor.Reads tokens middle
        ∧ ReadsStatement (tree.names scope) tokens found middle
        ∧ made.outcome.declared = found.declaration? := by
  have outcome := attempted.outcome
  generalize same : made.outcome = reached at outcome
  cases outcome with
  | read reads whole semicolon =>
      simp only [Attempt.statement?, same, Option.some.injEq] at result
      subst result
      exact ⟨_, _, reads, whole, rfl⟩
  | unterminated | broken => simp [Attempt.statement?, same] at result

-----------------------------------------------------------------------------------------
-- Runs
-----------------------------------------------------------------------------------------

/-- Attempts made one after the other until no token is left, the scopes after them and what
was reported.
-/
inductive Run (scope : Nat) : ScopeTree → Cursor → List Attempt → ScopeTree → Reports → Prop
  | done {tree cursor} (finished : cursor.rest = []) : Run scope tree cursor [] tree cursor.reports
  | step {tree cursor made rest after reports} (more : cursor.rest ≠ [])
    (wellFormed : tree.WellFormed) (inside : scope < tree.size)
    (first : made.From tree scope cursor)
    (later : Run scope made.after made.next rest after reports)
    : Run scope tree cursor (made :: rest) after reports

theorem exists_run {tree : ScopeTree} (wellFormed : tree.WellFormed) {scope : Nat}
    (inside : scope < tree.size) (cursor : Cursor)
    : ∃ attempts after reports,
        attemptsFrom scope [] tree cursor = .ok (attempts, after, reports)
        ∧ Run scope tree cursor attempts after reports := by
  by_cases finished : cursor.rest = []
  · exact ⟨[], tree, cursor.reports, by rw [attemptsFrom, dif_pos finished]; rfl, .done finished⟩
  · obtain ⟨made, result, first⟩ := exists_attempt wellFormed inside cursor
    have shorter := attempt_next_rest_length_lt result finished
    obtain ⟨kept, size⟩ := install_wellFormed wellFormed first.installed
    obtain ⟨rest, after, reports, done, later⟩ := exists_run kept (size ▸ inside) made.next
    refine ⟨made :: rest, after, reports, ?_, .step finished wellFormed inside first later⟩
    rw [attemptsFrom, dif_neg finished]
    split
    · next failed => simp [result] at failed
    · next other again =>
        obtain rfl := Except.ok.inj (result.symm.trans again)
        rw [attemptsFrom_eq_append, done]
        rfl
termination_by cursor.rest.length

/-- Parsing a text is a run over its tokens. -/
theorem exists_session {tree : ScopeTree} (wellFormed : tree.WellFormed) {scope : Nat}
    (inside : scope < tree.size) (file : Option String) (source : String)
    : ∃ session, parseIn tree scope file source = .ok session
        ∧ session.scope = scope
        ∧ Run scope tree
            (.ofTokens file (Token.tokenize source.toList) (Text.byteLength source.toList))
            session.attempts session.scopes session.reports := by
  obtain ⟨attempts, after, reports, result, run⟩ := exists_run wellFormed inside
    (.ofTokens file (Token.tokenize source.toList) (Text.byteLength source.toList))
  refine ⟨⟨attempts, after, scope, reports⟩, ?_, rfl, run⟩
  simp [parseIn, result, bind, Except.bind, pure, Except.pure]

end Parse

end LetLang

import LetLang.Proofs.Parse.Attempts

/-! Reports of a run. Each attempt starts with the flag lowered, so the report that a failed
attempt makes is never suppressed: the errors of a session are those of its failed attempts.
-/

namespace LetLang.Parse

/-- The diagnostic of an error says to which file it belongs, if to any. -/
theorem Reports.diagnose_eq (file : Option String) (error : ParseError)
    : diagnose file error = { error.diagnostic with file := file } := by
  cases file <;> rfl

/-- Skipping to a boundary only moves over tokens. -/
theorem skipToBoundary_reads (cursor : Cursor)
    : ∃ read, cursor.Reads read (skipToBoundary cursor) := by
  fun_induction skipToBoundary cursor with
  | case1 | case2 => exact ⟨[], .nil⟩
  | case3 cursor token rest head _ ih =>
      obtain ⟨read, reads⟩ := ih
      exact ⟨token :: read, .cons head reads⟩

theorem resynchronize_reads (start : Location) (stopped : Cursor)
    : ∃ read, stopped.Reads read (resynchronize start stopped) := by
  obtain ⟨dropped, first⟩ : ∃ read,
      stopped.Reads read (if stopped.current.start = start then stopped.advance else stopped) := by
    split
    · exact settles_skip stopped
    · exact ⟨[], .nil⟩
  obtain ⟨skipped, second⟩ := skipToBoundary_reads _
  exact ⟨_, first.trans second⟩

/-- The reports that the next attempt finds: a failed one has added its error. -/
theorem Attempted.continuation_reports {names : Set String} {cursor : Cursor}
    {outcome : Outcome} (attempted : Attempted names cursor outcome)
    : (continuation cursor outcome).reports
      = match outcome.result with
        | .ok _ => cursor.reports
        | .error error => (cursor.reports.add error).lower := by
  cases attempted with
  | @read _ _ middle reads whole semicolon =>
      have last := Cursor.reads_current middle (by simp [semicolon])
      exact (reads.trans last).frame.2
  | unterminated reads whole missing =>
      obtain ⟨read, further⟩ := resynchronize_reads cursor.current.start _
      change Reports.lower _ = Reports.lower _
      rw [further.frame.2, ← reads.frame.2]
      rfl
  | broken reads other hopeless =>
      obtain ⟨read, further⟩ := resynchronize_reads cursor.current.start _
      change Reports.lower _ = Reports.lower _
      rw [further.frame.2, ← reads.frame.2]
      rfl

/-- The next attempt finds some of the tokens that lie ahead. -/
theorem Attempted.continuation_suffix {names : Set String} {cursor : Cursor} {outcome : Outcome}
    (attempted : Attempted names cursor outcome)
    : (continuation cursor outcome).rest <:+ cursor.rest := by
  -- Behind a failure some more tokens are skipped.
  have resumed : ∀ {read} {middle stopped : Cursor}, cursor.Reads read middle
      → stopped.rest = middle.rest
      → (resynchronize cursor.current.start stopped).rest <:+ cursor.rest := by
    intro read middle stopped reads same
    obtain ⟨skipped, further⟩ := resynchronize_reads cursor.current.start stopped
    rw [reads.rest_eq, ← same, further.rest_eq, ← List.append_assoc]
    exact List.suffix_append _ _
  cases attempted with
  | @read _ _ middle reads whole semicolon =>
      have last := Cursor.reads_current middle (by simp [semicolon])
      rw [(reads.trans last).rest_eq]
      exact List.suffix_append _ _
  | unterminated reads => exact resumed reads rfl
  | broken reads => exact resumed reads rfl

/-- A run that starts with the flag lowered reports the error of every failed attempt, in
order, and nothing else.
-/
theorem Run.reports_eq {scope : Nat} {tree after : ScopeTree} {cursor : Cursor}
    {attempts : List Attempt} {reports : Reports}
    (run : Run scope tree cursor attempts after reports)
    (lowered : cursor.reports.raised = false)
    : reports.errors = (attempts.filterMap Attempt.error?).reverse ++ cursor.reports.errors
      ∧ reports.diagnostics
        = ((attempts.filterMap Attempt.error?).map (Reports.diagnose cursor.reports.file)).reverse
          ++ cursor.reports.diagnostics := by
  induction run with
  | done finished => simp
  | @step tree cursor made rest after reports more _ _ first later ih =>
      have same := first.outcome.continuation_reports
      rw [← first.next] at same
      cases result : made.outcome.result with
      | ok found =>
          have none : made.error? = none := by simp [Attempt.error?, result]
          simp only [result] at same
          rw [List.filterMap_cons_none none, ← same]
          exact ih (by rw [same]; exact lowered)
      | error error =>
          have some : made.error? = some error := by simp [Attempt.error?, result]
          simp only [result, Reports.add, lowered, Bool.false_eq_true, if_false,
            Reports.lower] at same
          obtain ⟨errors, diagnostics⟩ := ih (by rw [same])
          rw [List.filterMap_cons_some some]
          simp [errors, diagnostics, same]

/-- The errors of a session are those of its attempts, each with its diagnostic. -/
theorem Run.session_reports {scope : Nat} {tree : ScopeTree} {file : Option String}
    {tokens : List Token} {stop : Location} {session : Session}
    (run : Run scope tree (.ofTokens file tokens stop) session.attempts session.scopes
      session.reports)
    : session.errors = session.attempts.filterMap Attempt.error?
      ∧ session.diagnostics
        = (session.attempts.filterMap Attempt.error?).map (Reports.diagnose file) := by
  obtain ⟨errors, diagnostics⟩ := run.reports_eq rfl
  constructor
  · simp [Session.errors, errors, Cursor.ofTokens, Reports.empty]
  · simp [Session.diagnostics, diagnostics, Cursor.ofTokens, Reports.empty]

end LetLang.Parse

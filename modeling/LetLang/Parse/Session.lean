import LetLang.Parse.Statement
import LetLang.Scope.Tree
import LetLang.Token.Scanner

/-! Parsing of whole texts, one attempt at a statement after the other. A failed attempt has
reported its error; the next one starts at a boundary between statements, and always further on.
-/

namespace LetLang.Parse

open LetLang.Text

/-- Skips tokens up to the next boundary between statements: behind a semicolon, before a
keyword or at the end of file.
-/
def skipToBoundary (cursor : Cursor) : Cursor :=
  match _h : cursor.rest with
  | [] => cursor
  | token :: _ =>
      if cursor.previous.any (·.kind = .semicolon) ∨ token.kind.isKeyword then
        cursor
      else
        skipToBoundary cursor.advance
termination_by cursor.rest.length
decreasing_by rw [Cursor.advance_rest, _h]; simp

/-- Moves to where the next attempt starts, after one that started at `start` has failed. An
attempt that failed at its first token leaves that token behind.
-/
def resynchronize (start : Location) (stopped : Cursor) : Cursor :=
  skipToBoundary (if stopped.current.start = start then stopped.advance else stopped)

theorem skipToBoundary_suffix (cursor : Cursor) : (skipToBoundary cursor).rest <:+ cursor.rest := by
  fun_induction skipToBoundary cursor with
  | case1 | case2 => exact List.suffix_refl _
  | case3 cursor _ _ _ _ ih =>
      rw [Cursor.advance_rest] at ih
      exact ih.trans (List.tail_suffix _)

/-- The next attempt starts further on than the failed one. -/
theorem resynchronize_rest_length_lt {start stopped : Cursor} (hs : stopped.rest <:+ start.rest)
    (hne : start.rest ≠ [])
    : (resynchronize start.current.start stopped).rest.length < start.rest.length := by
  have hp := List.length_pos_iff.mpr hne
  refine Nat.lt_of_le_of_lt (skipToBoundary_suffix _).length_le ?_
  by_cases hl : stopped.rest.length = start.rest.length
  · have hr := hs.eq_of_length hl
    rw [if_pos (by rw [Cursor.current_of_rest_eq hr hne]), Cursor.advance_rest, hr,
      List.length_tail]
    omega
  · have hlt : stopped.rest.length < start.rest.length := Nat.lt_of_le_of_ne hs.length_le hl
    split
    · rw [Cursor.advance_rest, List.length_tail]
      omega
    · exact hlt

/-- One attempt at a statement. -/
structure Attempt where
  /-- Where it started. -/
  start : Cursor
  /-- The scopes it started with. -/
  before : ScopeTree
  outcome : Outcome
  /-- The scopes with what it declared. -/
  after : ScopeTree
  /-- Where the next attempt starts. -/
  next : Cursor

namespace Attempt

/-- The statement that an attempt read. -/
def statement? (attempt : Attempt) : Option Statement :=
  match attempt.outcome.result with
  | .ok statement => some statement
  | .error _ => none

/-- The error that an attempt failed with. -/
def error? (attempt : Attempt) : Option ParseError :=
  match attempt.outcome.result with
  | .ok _ => none
  | .error error => some error

end Attempt

/-- Installs what an attempt declared. -/
def install (scopes : ScopeTree) (scope : Nat) : Option Declaration → Except Fault ScopeTree
  | none => .ok scopes
  | some declared => scopes.declare scope declared.name.text declared

/-- Where the attempt after one that started at `start` starts. -/
def continuation (start : Cursor) (outcome : Outcome) : Cursor :=
  match outcome.result with
  | .ok _ => outcome.stopped
  | .error _ => (resynchronize start.current.start outcome.stopped).lower

/-- Attempts a statement that declares into `scope`. -/
def attempt (scopes : ScopeTree) (scope : Nat) (start : Cursor) : Except Fault Attempt := do
  let outcome ← statement (scopes.isDeclared scope) start
  let after ← install scopes scope outcome.declared
  return ⟨start, scopes, outcome, after, continuation start outcome⟩

theorem attempt_next_rest_length_lt {scopes : ScopeTree} {scope : Nat} {start : Cursor}
    {made : Attempt} (h : attempt scopes scope start = .ok made) (hne : start.rest ≠ [])
    : made.next.rest.length < start.rest.length := by
  unfold attempt at h
  cases ho : statement (scopes.isDeclared scope) start with
  | error fault => simp [ho, bind, Except.bind] at h
  | ok outcome =>
      have hs := statement_stopped ho
      cases hi : install scopes scope outcome.declared with
      | error fault => simp [ho, hi, bind, Except.bind] at h
      | ok after =>
          simp only [ho, hi, bind, Except.bind, pure, Except.pure, Except.ok.injEq] at h
          subst h
          unfold continuation
          split
          · next hr => exact hs.2 _ hr
          · exact resynchronize_rest_length_lt hs.1 hne

/-- Makes attempts until the end of file. `made` holds those already made, last one first. -/
def attemptsFrom (scope : Nat) (made : List Attempt) (scopes : ScopeTree) (cursor : Cursor)
    : Except Fault (List Attempt × ScopeTree × Reports) :=
  if _he : cursor.rest = [] then
    .ok (made.reverse, scopes, cursor.reports)
  else
    match _h : attempt scopes scope cursor with
    | .error fault => .error fault
    | .ok next => attemptsFrom scope (next :: made) next.after next.next
termination_by cursor.rest.length
decreasing_by exact attempt_next_rest_length_lt _h _he

theorem attemptsFrom_eq_append (scope : Nat) (made : List Attempt) (scopes : ScopeTree)
    (cursor : Cursor)
    : attemptsFrom scope made scopes cursor
      = (attemptsFrom scope [] scopes cursor).map fun result =>
        (made.reverse ++ result.1, result.2) := by
  rw [attemptsFrom, attemptsFrom.eq_def scope [] scopes cursor]
  split
  · simp [Except.map]
  · next he =>
      split
      · rfl
      · next next h =>
          rw [attemptsFrom_eq_append scope (next :: made),
            attemptsFrom_eq_append scope [next]]
          cases attemptsFrom scope [] next.after next.next <;> simp [Except.map]
termination_by cursor.rest.length
decreasing_by all_goals exact attempt_next_rest_length_lt ‹_› ‹_›

end LetLang.Parse

namespace LetLang

open LetLang.Text

/-- A parsed text: the attempts that were made, the scopes after them and what was reported. -/
structure Session where
  attempts : List Parse.Attempt
  scopes : ScopeTree
  /-- The scope that was declared into. -/
  scope : Nat
  reports : Parse.Reports

namespace Session

/-- The statements that were read, in order. -/
def tree (session : Session) : Module :=
  ⟨session.attempts.filterMap Parse.Attempt.statement?⟩

/-- The errors that were reported, in order. -/
def errors (session : Session) : List ParseError :=
  session.reports.errors.reverse

/-- The diagnostics that were reported, in order. -/
def diagnostics (session : Session) : List Diagnostic :=
  session.reports.diagnostics.reverse

/-- The declaration of a name, as seen after parsing. -/
def lookup (session : Session) (name : String) : Except Fault (Option Declaration) :=
  session.scopes.lookup session.scope name

/-- Whether a name is visible after parsing. -/
def isDeclared (session : Session) (name : String) : Except Fault Bool :=
  session.scopes.isDeclared session.scope name

end Session

/-- Parses a text whose declarations go into `scope`. The names visible from there can be used
and cannot be declared again.
-/
def parseIn (scopes : ScopeTree) (scope : Nat) (file : Option String) (source : String)
    : Except Fault Session := do
  let cursor := Cursor.ofTokens file (Token.tokenize source.toList) (byteLength source.toList)
  let (attempts, after, reports) ← Parse.attemptsFrom scope [] scopes cursor
  return ⟨attempts, after, scope, reports⟩

/-- Parses a text on its own. -/
def parse (file : Option String) (source : String) : Except Fault Session :=
  parseIn ScopeTree.new ScopeTree.root file source

end LetLang

import LetLang.Proofs.Parse.Declarations
import LetLang.Proofs.Parse.Parallel
import LetLang.Proofs.Parse.Reporting
import LetLang.Proofs.Parse.Traces
import LetLang.Proofs.Scope.Relocation
import Mathlib.Data.Set.Function

/-! Attempts at parallel cursors. They come to the same, but for places, and the attempts that
follow them are again at parallel cursors, until on the left no token is left and on the right
the tail is.
-/

namespace LetLang

/-- The places that a parser can compare: where tokens start and where the source ends. -/
def Cursor.places (cursor : Cursor) : Set Location :=
  {place | place = cursor.stop ∨ ∃ token ∈ cursor.rest, token.start = place}

/-- The cursor `stopped` stands behind the tokens `read`, whatever has been reported. -/
structure Cursor.Passed (start : Cursor) (read : List Token) (stopped : Cursor) : Prop where
  rest : start.rest = read ++ stopped.rest
  stop : stopped.stop = start.stop
  previous : stopped.previous = read.getLast?.or start.previous

/-- Between two attempts: the cursors are parallel, or the tokens on the left have been read and
those of the tail have not.
-/
def Cursor.Abreast (move : Location → Location) (tail : List Token) (left right : Cursor)
    : Prop :=
  Cursor.Parallel move tail left right ∨ left.rest = [] ∧ right.rest = tail

namespace Cursor

variable {move : Location → Location} {tail : List Token} {left right : Cursor}

theorem current_start_mem_places (cursor : Cursor) : cursor.current.start ∈ cursor.places := by
  cases rest : cursor.rest with
  | nil =>
      refine .inl ?_
      simp only [current, rest]
      rfl
  | cons token others =>
      rw [current_eq_of_rest rest]
      exact .inr ⟨token, by simp [rest], rfl⟩

theorem places_subset {cursor later : Cursor} (stop : later.stop = cursor.stop)
    (ahead : later.rest <:+ cursor.rest)
    : later.places ⊆ cursor.places := by
  rintro place (rfl | ⟨token, member, rfl⟩)
  · exact .inl stop
  · exact .inr ⟨token, ahead.subset member, rfl⟩

theorem Reads.passed {cursor next : Cursor} {read : List Token} (reads : cursor.Reads read next)
    : cursor.Passed read next :=
  ⟨reads.rest_eq, reads.frame.1, reads.previous_eq⟩

theorem Abreast.lower (abreast : Cursor.Abreast move tail left right)
    : Cursor.Abreast move tail left.lower right.lower :=
  abreast.imp_left Parallel.lower

/-- What has been passed on the right is what has been passed on the left. -/
theorem Parallel.passed_eq {stopped other : Cursor} {read also : List Token}
    (parallel : Cursor.Parallel move tail left right)
    (further : Cursor.Parallel move tail stopped other)
    (passed : left.Passed read stopped) (alsoPassed : right.Passed also other)
    : also = read.map (Token.relocate move) := by
  have ahead := parallel.rest
  rw [alsoPassed.rest, passed.rest, further.rest, List.map_append, List.append_assoc] at ahead
  exact List.append_cancel_right ahead

end Cursor

namespace Parse

open LetLang.Parse.Parser LetLang.Cursor

variable {move : Location → Location} {tail : List Token} {left right : Cursor}

-----------------------------------------------------------------------------------------
-- One statement
-----------------------------------------------------------------------------------------

/-- Both outcomes are a statement in front of parallel semicolons, or both are an error at
parallel cursors.
-/
inductive Outcome.Parallel (move : Location → Location) (tail : List Token)
    : Outcome → Outcome → Prop
  | read {found left right} (middle : Cursor.Parallel move tail left right)
    (semicolon : left.current.kind = .semicolon)
    : Outcome.Parallel move tail ⟨.ok found, found.declaration?, left.advance⟩
        ⟨.ok (found.relocate move), found.declaration?.map (Declaration.relocate move),
          right.advance⟩
  | failed {error declared left right} (stopped : Cursor.Parallel move tail left right)
    : Outcome.Parallel move tail ⟨.error error, declared, left⟩
        ⟨.error (error.relocate move), declared.map (Declaration.relocate move), right⟩

theorem exists_statement_of_parallel (parallel : Cursor.Parallel move tail left right)
    {visible : Visibility} {outcome : Outcome} (result : statement visible left = .ok outcome)
    : ∃ other, statement visible right = .ok other
        ∧ Outcome.Parallel move tail outcome other := by
  have both := natural_statementBody visible left right parallel
  unfold statement at result ⊢
  generalize statementBody visible left = one, statementBody visible right = two
    at both result ⊢
  cases both with
  | faulted => cases result
  | failed stopped =>
      cases result
      exact ⟨_, rfl, .failed stopped⟩
  | @done found middle further next =>
      simp only [expect_apply, next.current, Token.relocate_kind] at result ⊢
      by_cases semicolon : middle.current.kind = .semicolon
      · simp only [semicolon, if_true] at result ⊢
        cases result
        rw [Statement.relocate_declaration?]
        exact ⟨_, rfl, .read next semicolon⟩
      · simp only [semicolon, if_false, fail] at result ⊢
        cases result
        rw [Statement.relocate_declaration?]
        exact ⟨_, rfl, .failed (next.report _ _)⟩

/-- Wherever an attempt stops, it has passed some tokens. -/
theorem Attempted.exists_passed {names : Set String} {cursor : Cursor} {outcome : Outcome}
    (attempted : Attempted names cursor outcome)
    : ∃ read, cursor.Passed read outcome.stopped := by
  cases attempted with
  | @read _ _ middle reads whole semicolon =>
      have last := reads_current middle (by simp [semicolon])
      exact ⟨_, (reads.trans last).passed⟩
  | unterminated reads | broken reads =>
      exact ⟨_, reads.passed.rest, reads.passed.stop, reads.passed.previous⟩

-----------------------------------------------------------------------------------------
-- Recovery
-----------------------------------------------------------------------------------------

theorem skipToBoundary_of_finished {cursor : Cursor} (finished : cursor.rest = [])
    : skipToBoundary cursor = cursor := by
  rw [skipToBoundary]
  split
  · rfl
  · next more => simp [finished] at more

/-- Nothing is skipped behind a semicolon. -/
theorem skipToBoundary_of_closed {cursor : Cursor}
    (closed : cursor.previous.any (·.kind = .semicolon) = true)
    : skipToBoundary cursor = cursor := by
  rw [skipToBoundary]
  split
  · rfl
  · rw [if_pos (.inl closed)]

theorem previous_advance_any {cursor : Cursor} (more : cursor.rest ≠ [])
    : cursor.advance.previous.any (·.kind = .semicolon)
      = decide (cursor.current.kind = .semicolon) := by
  obtain ⟨token, rest, head⟩ := List.exists_cons_of_ne_nil more
  rw [advance_eq_of_rest head, current_eq_of_rest head]
  rfl

/-- Behind the last semicolon on the left nothing is skipped, on neither side. -/
theorem abreast_skipToBoundary_of_closed (parallel : Cursor.Parallel move tail left right)
    (more : left.rest ≠ []) (semicolon : left.current.kind = .semicolon)
    (finished : left.advance.rest = []) (resumed : right.advance.rest = tail)
    : Cursor.Abreast move tail (skipToBoundary left.advance) (skipToBoundary right.advance) := by
  have alsoMore : right.rest ≠ [] := by simp [parallel.rest, more]
  have closed : right.advance.previous.any (·.kind = .semicolon) = true := by
    rw [previous_advance_any alsoMore, parallel.current]
    exact decide_eq_true semicolon
  rw [skipToBoundary_of_finished finished, skipToBoundary_of_closed closed]
  exact .inr ⟨finished, resumed⟩

/-- Skipping goes equally far on both sides where the tokens just read are alike. -/
theorem abreast_skipToBoundary (parallel : Cursor.Parallel move tail left right)
    (previous
      : right.previous.any (·.kind = .semicolon) = left.previous.any (·.kind = .semicolon))
    : Cursor.Abreast move tail (skipToBoundary left) (skipToBoundary right) := by
  fun_induction skipToBoundary left generalizing right with
  | case1 left finished =>
      rw [skipToBoundary_of_finished (parallel.rest_eq_nil finished)]
      exact .inl parallel
  | case2 left token others rest stops =>
      have ahead := parallel.rest
      rw [rest] at ahead
      have stay : skipToBoundary right = right := by
        rw [skipToBoundary]
        split
        · rfl
        · next other _ again =>
            obtain ⟨rfl, _⟩ := List.cons.inj (ahead.symm.trans again)
            rw [if_pos (by rwa [previous])]
      rw [stay]
      exact .inl parallel
  | case3 left token others rest goes ih =>
      have ahead := parallel.rest
      rw [rest] at ahead
      have more : left.rest ≠ [] := by simp [rest]
      have alsoMore : right.rest ≠ [] := by simp [ahead]
      have moves : skipToBoundary right = skipToBoundary right.advance := by
        rw [skipToBoundary]
        split
        · next finished => exact absurd finished alsoMore
        · next other _ again =>
            obtain ⟨rfl, _⟩ := List.cons.inj (ahead.symm.trans again)
            rw [if_neg (by rwa [previous])]
      rw [moves]
      rcases parallel.advance_cases more with further | ⟨semicolon, finished, resumed⟩
      · apply ih further
        rw [previous_advance_any more, previous_advance_any alsoMore, parallel.current]
        rfl
      · exact abreast_skipToBoundary_of_closed parallel more semicolon finished resumed

theorem abreast_skipToBoundary_advance (parallel : Cursor.Parallel move tail left right)
    : Cursor.Abreast move tail (skipToBoundary left.advance) (skipToBoundary right.advance) := by
  by_cases finished : left.rest = []
  · have alsoFinished := parallel.rest_eq_nil finished
    rw [advance_of_rest_eq_nil finished, advance_of_rest_eq_nil alsoFinished,
      skipToBoundary_of_finished finished, skipToBoundary_of_finished alsoFinished]
    exact .inl parallel
  · have alsoMore : right.rest ≠ [] := by simp [parallel.rest, finished]
    rcases parallel.advance_cases finished with further | ⟨semicolon, last, resumed⟩
    · apply abreast_skipToBoundary further
      rw [previous_advance_any finished, previous_advance_any alsoMore, parallel.current]
      rfl
    · exact abreast_skipToBoundary_of_closed parallel finished semicolon last resumed

/-- Recovery goes equally far on both sides, provided that the places it compares stay apart. -/
theorem abreast_resynchronize (apart : Set.InjOn move left.places)
    (parallel : Cursor.Parallel move tail left right) {stopped other : Cursor}
    (further : Cursor.Parallel move tail stopped other) {read also : List Token}
    (passed : left.Passed read stopped) (alsoPassed : right.Passed also other)
    : Cursor.Abreast move tail (resynchronize left.current.start stopped)
        (resynchronize right.current.start other) := by
  have subset := places_subset passed.stop ⟨read, passed.rest.symm⟩
  have test : other.current.start = right.current.start
      ↔ stopped.current.start = left.current.start := by
    rw [further.current, parallel.current]
    exact apart.eq_iff (subset stopped.current_start_mem_places) left.current_start_mem_places
  unfold resynchronize
  by_cases stuck : stopped.current.start = left.current.start
  · rw [if_pos stuck, if_pos (test.mpr stuck)]
    exact abreast_skipToBoundary_advance further
  · rw [if_neg stuck, if_neg (mt test.mp stuck)]
    apply abreast_skipToBoundary further
    -- The attempt has moved, so both cursors stand behind a token that it read.
    cases last : read.getLast? with
    | none =>
        have same := passed.rest
        rw [List.getLast?_eq_none_iff.mp last, List.nil_append] at same
        have here : stopped.current = left.current := by
          simp only [Cursor.current, same, passed.stop]
        exact absurd (congrArg Token.start here) stuck
    | some token =>
        have alike := parallel.passed_eq further passed alsoPassed
        rw [passed.previous, alsoPassed.previous, alike, List.getLast?_map, last]
        rfl

/-- The attempts that follow parallel ones start abreast. -/
theorem abreast_continuation (apart : Set.InjOn move left.places)
    (parallel : Cursor.Parallel move tail left right) {names : Set String}
    {outcome other : Outcome} (both : Outcome.Parallel move tail outcome other)
    (attempted : Attempted names left outcome) (alsoAttempted : Attempted names right other)
    : Cursor.Abreast move tail (continuation left outcome) (continuation right other) := by
  cases both with
  | @read _ here _ middle semicolon =>
      have more : here.rest ≠ [] := by
        rw [(reads_current here (by simp [semicolon])).rest_eq]
        simp
      exact (middle.advance_cases more).imp_right fun closed => closed.2
  | failed stopped =>
      obtain ⟨read, passed⟩ := attempted.exists_passed
      obtain ⟨also, alsoPassed⟩ := alsoAttempted.exists_passed
      exact (abreast_resynchronize apart parallel stopped passed alsoPassed).lower

-----------------------------------------------------------------------------------------
-- Attempts and traces
-----------------------------------------------------------------------------------------

theorem Attempted.continuation_stop {names : Set String} {cursor : Cursor} {outcome : Outcome}
    (attempted : Attempted names cursor outcome)
    : (continuation cursor outcome).stop = cursor.stop := by
  obtain ⟨read, passed⟩ := attempted.exists_passed
  unfold continuation
  split
  · exact passed.stop
  · obtain ⟨_, skipped⟩ := resynchronize_reads cursor.current.start outcome.stopped
    exact skipped.frame.1.trans passed.stop

theorem Outcome.Parallel.declared_eq {outcome other : Outcome}
    (both : Outcome.Parallel move tail outcome other)
    : other.declared = outcome.declared.map (Declaration.relocate move) := by
  cases both <;> rfl

theorem Outcome.Parallel.statement?_eq {made other : Attempt}
    (both : Outcome.Parallel move tail made.outcome other.outcome)
    : other.statement? = made.statement?.map (Statement.relocate move) := by
  unfold Attempt.statement?
  generalize made.outcome = one, other.outcome = two at both
  cases both <;> rfl

theorem Outcome.Parallel.error?_eq {made other : Attempt}
    (both : Outcome.Parallel move tail made.outcome other.outcome)
    : other.error? = made.error?.map (ParseError.relocate move) := by
  unfold Attempt.error?
  generalize made.outcome = one, other.outcome = two at both
  cases both <;> rfl

section

variable {base tree after : ScopeTree} {scope : Nat}

/-- An attempt at one of two parallel cursors is made alike at the other, with the moved scopes.
-/
theorem exists_attempt_of_parallel (apart : Set.InjOn move left.places)
    (wellFormed : tree.WellFormed) (inside : scope < tree.size)
    (known : ∀ name, (base.own? scope name).isSome = true → name ∈ tree.names scope)
    (parallel : Cursor.Parallel move tail left right) {made : Attempt}
    (result : attempt tree scope left = .ok made)
    : ∃ other, attempt (tree.relocateSince move base scope) scope right = .ok other
        ∧ Outcome.Parallel move tail made.outcome other.outcome
        ∧ other.after = made.after.relocateSince move base scope
        ∧ Cursor.Abreast move tail made.next other.next := by
  have attempted := from_of_attempt wellFormed inside result
  obtain ⟨_, _, parsed, installed, next⟩ := attempt_eq_ok_iff.mp result
  obtain ⟨outcome, alsoParsed, both⟩ := exists_statement_of_parallel parallel parsed
  rw [← ScopeTree.isDeclared_relocateSince wellFormed inside] at alsoParsed
  have alsoInstalled : install (tree.relocateSince move base scope) scope outcome.declared
      = .ok (made.after.relocateSince move base scope) := by
    rw [both.declared_eq]
    apply ScopeTree.install_relocateSince inside installed
    · intro declared member
      cases bound : base.own? scope declared.name.text with
      | none => rfl
      | some earlier =>
          exact absurd (known _ (by rw [bound]; rfl)) (attempted.fresh member)
    · intro declared member
      exact ScopeTree.own?_eq_none_of_not_mem (attempted.fresh member)
  have made' : attempt (tree.relocateSince move base scope) scope right
      = .ok ⟨right, tree.relocateSince move base scope, outcome,
          made.after.relocateSince move base scope, continuation right outcome⟩ :=
    attempt_eq_ok_iff.mpr ⟨rfl, rfl, alsoParsed, alsoInstalled, rfl⟩
  have alsoAttempted := from_of_attempt wellFormed.relocateSince
    (by rwa [ScopeTree.relocateSince_size]) made'
  have outcomes := alsoAttempted.outcome
  rw [ScopeTree.names_relocateSince] at outcomes
  refine ⟨_, made', both, rfl, ?_⟩
  rw [next]
  exact abreast_continuation apart parallel both attempted.outcome outcomes

/-- A trace up to the end of file is followed from a cursor abreast, up to the tail. -/
theorem Trace.exists_of_abreast {attempts : List Attempt} {next : Cursor}
    (trace : Trace scope tree left attempts after next) (finished : next.rest = [])
    (apart : Set.InjOn move left.places) (wellFormed : tree.WellFormed)
    (inside : scope < tree.size)
    (known : ∀ name, (base.own? scope name).isSome = true → name ∈ tree.names scope)
    (abreast : Cursor.Abreast move tail left right)
    : ∃ others reached,
        Trace scope (tree.relocateSince move base scope) right others
          (after.relocateSince move base scope) reached
        ∧ reached.rest = tail
        ∧ others.filterMap Attempt.statement?
          = (attempts.filterMap Attempt.statement?).map (Statement.relocate move)
        ∧ others.filterMap Attempt.error?
          = (attempts.filterMap Attempt.error?).map (ParseError.relocate move) := by
  induction trace generalizing right with
  | @refl tree left =>
      refine ⟨[], right, .refl, ?_, rfl, rfl⟩
      rcases abreast with parallel | ⟨_, resumed⟩
      · rw [parallel.rest, finished]
        rfl
      · exact resumed
  | @step tree left made rest after next more first _ ih =>
      rcases abreast with parallel | ⟨none, _⟩
      · obtain ⟨other, alsoFirst, both, scopes, further⟩ :=
          exists_attempt_of_parallel apart wellFormed inside known parallel first
        have attempted := from_of_attempt wellFormed inside first
        obtain ⟨kept, size⟩ := install_wellFormed wellFormed attempted.installed
        have smaller : made.next.places ⊆ left.places := by
          rw [attempted.next]
          exact places_subset attempted.outcome.continuation_stop
            attempted.outcome.continuation_suffix
        have still : ∀ name, (base.own? scope name).isSome = true
            → name ∈ made.after.names scope := by
          intro name bound
          rw [names_install attempted.installed]
          exact .inl (known name bound)
        obtain ⟨others, reached, later, ends, statements, errors⟩ :=
          ih finished (apart.mono smaller) kept (size ▸ inside) still further
        have alsoMore : right.rest ≠ [] := by simp [parallel.rest, more]
        rw [← scopes] at later
        refine ⟨other :: others, reached, .step alsoMore alsoFirst later, ends, ?_, ?_⟩
        · rw [List.filterMap_cons, List.filterMap_cons, both.statement?_eq, statements]
          cases made.statement? <;> rfl
        · rw [List.filterMap_cons, List.filterMap_cons, both.error?_eq, errors]
          cases made.error? <;> rfl
      · exact absurd none more

end

end Parse

end LetLang

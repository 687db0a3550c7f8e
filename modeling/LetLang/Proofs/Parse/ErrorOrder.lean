import LetLang.Proofs.Parse.EarliestErrors

/-! Errors are reported in the order of their positions. An error is about a token that its
attempt has come to, and no boundary at which the next attempt could start lies between the two.
-/

namespace LetLang

namespace Grammar.Place

variable {seen : String → Bool} {place reached : Place} {token : Token} {read : List Token}

/-- A semicolon ends the statement. -/
theorem eq_closed_of_semicolon (leads : place.next seen token = some reached)
    (mark : token.kind = .semicolon)
    : reached = .closed := by
  cases place <;> simp_all [next, awaitKind, awaitName, awaitValue]

/-- A keyword can only start a statement. -/
theorem eq_start_of_isKeyword (leads : place.next seen token = some reached)
    (keyword : token.kind.isKeyword = true)
    : place = .start := by
  cases place <;> cases kind : token.kind <;>
    simp_all [next, awaitKind, awaitName, awaitValue, Token.Kind.isKeyword, Token.Kind.keyword?]

theorem ne_start_of_next (leads : place.next seen token = some reached) : reached ≠ .start := by
  rintro rfl
  cases place <;> cases kind : token.kind <;>
    simp_all [next, awaitKind, awaitName, awaitValue]

theorem ne_start_of_run (ran : place.run seen read = some reached) (some : read ≠ [])
    : reached ≠ .start := by
  rcases List.eq_nil_or_concat read with rfl | ⟨before, last, rfl⟩
  · exact absurd rfl some
  rw [List.concat_eq_append, run_append] at ran
  obtain ⟨middle, _, final⟩ := Option.bind_eq_some_iff.mp ran
  obtain ⟨after, leads, same⟩ := Option.bind_eq_some_iff.mp final
  cases same
  exact ne_start_of_next leads

/-- The tokens that are read before a statement ends hold no semicolon, and none but the first
of them is a keyword.
-/
theorem not_boundary_of_run (ran : start.run seen read = some reached) (ready : reached ≠ .closed)
    {index : Nat} (found : read[index]? = some token)
    : token.kind ≠ .semicolon ∧ (0 < index → token.kind.isKeyword = false) := by
  obtain ⟨inside, same⟩ := List.getElem?_eq_some_iff.mp found
  have split : read = read.take index ++ token :: read.drop (index + 1) := by
    rw [← same, ← List.drop_eq_getElem_cons inside, List.take_append_drop]
  rw [split, run_append] at ran
  obtain ⟨middle, first, second⟩ := Option.bind_eq_some_iff.mp ran
  obtain ⟨after, leads, last⟩ := Option.bind_eq_some_iff.mp second
  constructor
  · intro mark
    obtain rfl := eq_closed_of_semicolon leads mark
    cases rest : read.drop (index + 1) with
    | nil =>
        rw [rest] at last
        exact ready (Option.some.inj last).symm
    | cons token later =>
        rw [rest] at last
        cases last
  · intro behind
    rw [← Bool.not_eq_true]
    intro keyword
    have taken : read.take index ≠ [] := by
      intro none
      have length := congrArg List.length none
      simp only [List.length_take, List.length_nil] at length
      omega
    exact ne_start_of_run first taken (eq_start_of_isKeyword leads keyword)

end Grammar.Place

namespace Parse

open LetLang.Grammar LetLang.Token LetLang.Text

theorem Blames.start_eq {error : ParseError} {token : Token} (blames : Blames error token)
    : error.span.start = token.start := by
  cases blames <;> rfl

section

variable {tree after : ScopeTree} {scope : Nat} {cursor other final : Cursor} {tokens : List Token}
  {first index : Nat}

/-- Cursors further on stand before tokens further on. -/
theorem current_start_lt (sorted : tokens.Pairwise fun left right => left.start < right.start)
    (bounded : ∀ token ∈ tokens, token.start < cursor.stop) (stop : other.stop = cursor.stop)
    (stands : cursor.StandsAt tokens first) (alsoStands : other.StandsAt tokens index)
    (further : first < index)
    : cursor.current.start < other.current.start := by
  have here := stands.getElem?_eq_current
  have there := alsoStands.getElem?_eq_current
  rw [stop] at there
  obtain ⟨inside, same⟩ := List.getElem?_eq_some_iff.mp here
  obtain ⟨alsoInside, alsoSame⟩ := List.getElem?_eq_some_iff.mp there
  have less := List.pairwise_iff_getElem.mp (pairwise_append_endOfFile sorted bounded)
    first index inside alsoInside further
  rwa [same, alsoSame] at less

theorem current_start_le (sorted : tokens.Pairwise fun left right => left.start < right.start)
    (bounded : ∀ token ∈ tokens, token.start < cursor.stop) (stop : other.stop = cursor.stop)
    (stands : cursor.StandsAt tokens first) (alsoStands : other.StandsAt tokens index)
    (order : first ≤ index)
    : cursor.current.start ≤ other.current.start := by
  rcases Nat.eq_or_lt_of_le order with rfl | further
  · have here := stands.getElem?_eq_current
    have there := alsoStands.getElem?_eq_current
    rw [stop] at there
    rw [Option.some.inj (here.symm.trans there)]
  · exact Nat.le_of_lt (current_start_lt sorted bounded stop stands alsoStands further)

/-- Recovery does not go back behind the tokens that an attempt has read. -/
theorem Attempt.FailsInRange.read_le {made : Attempt} {reached next : Nat} {error : ParseError}
    (range : made.FailsInRange tokens first reached next error)
    (stands : cursor.StandsAt tokens first) {read : List Token} {middle : Cursor}
    (reads : cursor.Reads read middle) {seen : String → Bool} {place : Place}
    (ran : Place.start.run seen read = some place) (ready : place ≠ .closed)
    : first + read.length ≤ next := by
  obtain ⟨⟨further, boundary⟩, _⟩ := range.least
  apply Nat.le_of_not_lt
  intro before
  rcases boundary with finished | ⟨token, found, mark⟩ | ⟨token, found, keyword⟩
  · have within := (stands.reads reads).inside
    omega
  · have here := stands.getElem?_read reads (by omega) (by omega) found
    exact (Place.not_boundary_of_run ran ready here).1 mark
  · have here := stands.getElem?_read reads (by omega) before found
    have plain := (Place.not_boundary_of_run ran ready here).2 (by omega)
    rw [(isKeyword_iff token.kind).mpr keyword] at plain
    cases plain

/-- The error of an attempt lies between where the attempt starts and where the next one does. -/
theorem error_between (wellFormed : tree.WellFormed) (within : scope < tree.size) {made : Attempt}
    (result : attempt tree scope cursor = .ok made)
    (sorted : tokens.Pairwise fun left right => left.start < right.start)
    (bounded : ∀ token ∈ tokens, token.start < cursor.stop)
    (stands : cursor.StandsAt tokens first) (more : first < tokens.length)
    : made.next.stop = cursor.stop
      ∧ cursor.current.start ≤ made.next.current.start
      ∧ (∃ next, made.next.StandsAt tokens next)
      ∧ ∀ error ∈ made.error?,
          cursor.current.start ≤ error.span.start
          ∧ error.span.start ≤ made.next.current.start := by
  have attempted := from_of_attempt wellFormed within result
  obtain ⟨_, _, outcome, _, _⟩ := attempt_eq_ok_iff.mp result
  obtain ⟨stop, next, resumed, range⟩ := attempted.range sorted bounded stands more
  rcases range with ⟨found, range⟩ | ⟨reached, error, range⟩
  · refine ⟨stop, ?_, ⟨next, resumed⟩, ?_⟩
    · exact current_start_le sorted bounded stop stands resumed (Nat.le_of_lt range.progress)
    · simp [Attempt.error?, range.result]
  · have decides : Decides (tree.isDeclared scope) (tree.names scope) :=
      ScopeTree.isDeclared_cases wellFormed within
    obtain ⟨seen, _, read, middle, place, reads, ran, ready, _, refused⟩ :=
      exists_blamed decides outcome range.result
    have position := refused.blames.start_eq
    have limit := range.read_le stands reads ran ready
    have lower := current_start_le sorted bounded reads.frame.1 stands (stands.reads reads)
      (Nat.le_add_right _ _)
    have upper := current_start_le sorted (reads.frame.1 ▸ bounded)
      (stop.trans reads.frame.1.symm) (stands.reads reads) resumed limit
    refine ⟨stop, lower.trans upper, ⟨next, resumed⟩, ?_⟩
    simp only [Attempt.error?, range.result, Option.mem_def, Option.some.injEq]
    rintro _ rfl
    rw [position]
    exact ⟨lower, upper⟩

/-- By induction over the attempts: each error lies behind those of the attempts before it. -/
theorem Trace.errors_sorted {attempts : List Attempt}
    (trace : Trace scope tree cursor attempts after final) (wellFormed : tree.WellFormed)
    (within : scope < tree.size)
    (sorted : tokens.Pairwise fun left right => left.start < right.start)
    (bounded : ∀ token ∈ tokens, token.start < cursor.stop)
    (stands : cursor.StandsAt tokens first)
    : (attempts.filterMap Attempt.error?).Pairwise
          (fun left right => left.span.start ≤ right.span.start)
      ∧ ∀ error ∈ attempts.filterMap Attempt.error?,
          cursor.current.start ≤ error.span.start := by
  induction trace generalizing first with
  | refl => exact ⟨.nil, by simp⟩
  | @step tree cursor made rest after final more result _ ih =>
      obtain ⟨stop, forward, ⟨next, resumed⟩, between⟩ :=
        error_between wellFormed within result sorted bounded stands (stands.lt_length more)
      obtain ⟨_, _, _, installed, _⟩ := attempt_eq_ok_iff.mp result
      obtain ⟨kept, size⟩ := install_wellFormed wellFormed installed
      obtain ⟨later, behind⟩ := ih kept (size ▸ within) (stop ▸ bounded) resumed
      cases failed : made.error? with
      | none =>
          rw [List.filterMap_cons_none failed]
          exact ⟨later, fun error member => forward.trans (behind error member)⟩
      | some error =>
          obtain ⟨lower, upper⟩ := between error failed
          rw [List.filterMap_cons_some failed]
          refine ⟨List.pairwise_cons.mpr ⟨?_, later⟩, List.forall_mem_cons.mpr ⟨lower, ?_⟩⟩
          · exact fun other member => upper.trans (behind other member)
          · exact fun other member => forward.trans (behind other member)

end

/-- A parse reports its errors in the order of their positions. -/
theorem errors_sorted_of_parseIn {tree : ScopeTree} (wellFormed : tree.WellFormed) {scope : Nat}
    (inside : scope < tree.size) {file : Option String} {source : String} {session : Session}
    (parsed : parseIn tree scope file source = .ok session)
    : session.errors.Pairwise fun left right => left.span.start ≤ right.span.start := by
  obtain ⟨_, _, trace, _, _⟩ := parseIn_eq_ok_iff.mp parsed
  rw [(run_of_parseIn wellFormed inside parsed).session_reports.1]
  exact (trace.errors_sorted wellFormed inside (tokenize_sorted source.toList)
    (fun _ member => start_lt_of_mem_tokenize member) (Cursor.standsAt_ofTokens file _ _)).1

end Parse

end LetLang

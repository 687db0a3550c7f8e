import LetLang.Proofs.Parse.Attempts

/-! Traces: the attempts that the parser itself makes between two cursors. A run says what its
attempts can come to; a trace says that they are the results of `attempt`, so that two parses can
be compared attempt by attempt.
-/

namespace LetLang.Parse

/-- Attempts made one after the other from a cursor on, and the scopes and the cursor behind
them.
-/
inductive Trace (scope : Nat) : ScopeTree → Cursor → List Attempt → ScopeTree → Cursor → Prop
  | refl {tree cursor} : Trace scope tree cursor [] tree cursor
  | step {tree cursor made rest after next} (more : cursor.rest ≠ [])
    (first : attempt tree scope cursor = .ok made)
    (later : Trace scope made.after made.next rest after next)
    : Trace scope tree cursor (made :: rest) after next

/-- All parts of an attempt are determined by where it starts. -/
theorem attempt_eq_ok_iff {tree : ScopeTree} {scope : Nat} {cursor : Cursor} {made : Attempt}
    : attempt tree scope cursor = .ok made
      ↔ made.start = cursor
        ∧ made.before = tree
        ∧ statement (tree.isDeclared scope) cursor = .ok made.outcome
        ∧ install tree scope made.outcome.declared = .ok made.after
        ∧ made.next = continuation cursor made.outcome := by
  unfold attempt
  cases result : statement (tree.isDeclared scope) cursor with
  | error fault => simp [bind, Except.bind]
  | ok outcome =>
      cases installed : install tree scope outcome.declared with
      | error fault =>
          simp only [bind, Except.bind, installed]
          constructor
          · intro impossible
            cases impossible
          · intro parts
            obtain ⟨_, _, same, other, _⟩ := parts
            rw [← Except.ok.inj same, installed] at other
            cases other
      | ok after =>
          simp only [bind, Except.bind, installed, pure, Except.pure, Except.ok.injEq]
          constructor
          · intro same
            subst same
            exact ⟨rfl, rfl, rfl, installed, rfl⟩
          · intro parts
            obtain ⟨rfl, rfl, rfl, other, next⟩ := parts
            obtain rfl := Except.ok.inj (installed.symm.trans other)
            rw [← next]

theorem from_of_attempt {tree : ScopeTree} (wellFormed : tree.WellFormed) {scope : Nat}
    (inside : scope < tree.size) {cursor : Cursor} {made : Attempt}
    (result : attempt tree scope cursor = .ok made)
    : made.From tree scope cursor := by
  obtain ⟨other, again, attempted⟩ := exists_attempt wellFormed inside cursor
  obtain rfl := Except.ok.inj (result.symm.trans again)
  exact attempted

section

variable {scope : Nat} {tree middle after : ScopeTree} {cursor between next : Cursor}
  {attempts left right : List Attempt}

theorem Trace.append (first : Trace scope tree cursor left middle between)
    (second : Trace scope middle between right after next)
    : Trace scope tree cursor (left ++ right) after next := by
  induction first with
  | refl => exact second
  | step more made _ ih => exact .step more made (ih second)

theorem Trace.attempt_of_mem (trace : Trace scope tree cursor attempts after next)
    {made : Attempt} (member : made ∈ attempts)
    : attempt made.before scope made.start = .ok made := by
  induction trace with
  | refl => cases member
  | step _ first _ ih =>
      rcases List.mem_cons.mp member with rfl | member
      · obtain ⟨rfl, rfl, _⟩ := attempt_eq_ok_iff.mp first
        exact first
      · exact ih member

/-- Attempts keep the links between the scopes. -/
theorem Trace.wellFormed_before (trace : Trace scope tree cursor attempts after next)
    (wellFormed : tree.WellFormed) {made : Attempt} (member : made ∈ attempts)
    : made.before.WellFormed ∧ made.before.size = tree.size := by
  induction trace with
  | refl => cases member
  | step _ first _ ih =>
      obtain ⟨_, rfl, _, installed, _⟩ := attempt_eq_ok_iff.mp first
      rcases List.mem_cons.mp member with rfl | member
      · exact ⟨wellFormed, rfl⟩
      · obtain ⟨kept, size⟩ := install_wellFormed wellFormed installed
        obtain ⟨later, same⟩ := ih kept member
        exact ⟨later, same.trans size⟩

theorem exists_trace_of_attemptsFrom {made : List Attempt} {reports : Reports}
    (result : attemptsFrom scope made tree cursor = .ok (attempts, after, reports))
    : ∃ more next,
        attempts = made.reverse ++ more
        ∧ Trace scope tree cursor more after next
        ∧ next.rest = []
        ∧ next.reports = reports := by
  fun_induction attemptsFrom scope made tree cursor with
  | case1 made tree cursor finished =>
      cases result
      exact ⟨[], cursor, by simp, .refl, finished, rfl⟩
  | case2 => cases result
  | case3 made tree cursor unfinished first result' ih =>
      obtain ⟨more, next, rfl, trace, finished, reported⟩ := ih result
      exact ⟨first :: more, next, by simp, .step unfinished result' trace, finished, reported⟩

/-- The loop over attempts ends with a trace to the end of file. -/
theorem attemptsFrom_eq_ok_iff {reports : Reports}
    : attemptsFrom scope [] tree cursor = .ok (attempts, after, reports)
      ↔ ∃ next, Trace scope tree cursor attempts after next
          ∧ next.rest = [] ∧ next.reports = reports := by
  constructor
  · intro result
    obtain ⟨_, next, rfl, trace, finished, reported⟩ := exists_trace_of_attemptsFrom result
    exact ⟨next, trace, finished, reported⟩
  · intro given
    obtain ⟨next, trace, finished, rfl⟩ := given
    induction trace with
    | refl =>
        rw [attemptsFrom, dif_pos finished]
        rfl
    | @step tree cursor made rest after next more first _ ih =>
        rw [attemptsFrom, dif_neg more]
        split
        · next failed => simp [first] at failed
        · next other again =>
            obtain rfl := Except.ok.inj (first.symm.trans again)
            rw [attemptsFrom_eq_append, ih finished]
            rfl

end

/-- Parsing a text is a trace over all its tokens. -/
theorem parseIn_eq_ok_iff {tree : ScopeTree} {scope : Nat} {file : Option String}
    {source : String} {session : Session}
    : parseIn tree scope file source = .ok session
      ↔ session.scope = scope
        ∧ ∃ next,
            Trace scope tree
              (.ofTokens file (Token.tokenize source.toList) (Text.byteLength source.toList))
              session.attempts session.scopes next
            ∧ next.rest = [] ∧ next.reports = session.reports := by
  rw [← attemptsFrom_eq_ok_iff]
  simp only [parseIn]
  cases attemptsFrom scope [] tree
      (.ofTokens file (Token.tokenize source.toList) (Text.byteLength source.toList)) with
  | error fault => simp [bind, Except.bind]
  | ok result =>
      obtain ⟨attempts, scopes, reports⟩ := result
      obtain ⟨otherAttempts, otherScopes, otherScope, otherReports⟩ := session
      simp only [bind, Except.bind, pure, Except.pure, Except.ok.injEq, Session.mk.injEq,
        Prod.mk.injEq]
      constructor
      · rintro ⟨rfl, rfl, rfl, rfl⟩
        exact ⟨rfl, rfl, rfl, rfl⟩
      · rintro ⟨rfl, rfl, rfl, rfl⟩
        exact ⟨rfl, rfl, rfl, rfl⟩

theorem run_of_parseIn {tree : ScopeTree} (wellFormed : tree.WellFormed) {scope : Nat}
    (inside : scope < tree.size) {file : Option String} {source : String} {session : Session}
    (parsed : parseIn tree scope file source = .ok session)
    : Run scope tree
        (.ofTokens file (Token.tokenize source.toList) (Text.byteLength source.toList))
        session.attempts session.scopes session.reports := by
  obtain ⟨other, again, _, run⟩ := exists_session wellFormed inside file source
  obtain rfl := Except.ok.inj (parsed.symm.trans again)
  exact run

end LetLang.Parse

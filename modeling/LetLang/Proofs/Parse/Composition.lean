import LetLang.Proofs.Parse.Lockstep
import LetLang.Proofs.Token.Joining

/-! Parsing two texts in a row. Where the first one ends with a semicolon, parsing the whole is
parsing the one and then, with the scopes it has left, the other; nothing that the parser knows
besides the scopes is carried over a semicolon.
-/

namespace LetLang.Parse

/-- A session over two texts: it has what the session over the first has and then, moved behind the
first text, what the session over the second has.
-/
structure Joins (scope : Nat) (move : Location → Location) (left right whole : Session)
    : Prop where
  statements
    : whole.tree.statements = left.tree.statements ++ (right.tree.relocate move).statements
  errors : whole.errors = left.errors ++ right.errors.map (ParseError.relocate move)
  diagnostics
    : whole.diagnostics = left.diagnostics ++ right.diagnostics.map (Diagnostic.relocate move)
  /-- Of the bindings, only those move that the second session has installed. -/
  scopes : whole.scopes = right.scopes.relocateSince move left.scopes scope

/-- Attempts leave the end of the source where it is. -/
theorem Trace.stop_eq {scope : Nat} {tree after : ScopeTree} {cursor next : Cursor}
    {attempts : List Attempt} (trace : Trace scope tree cursor attempts after next)
    (wellFormed : tree.WellFormed) (inside : scope < tree.size)
    : next.stop = cursor.stop := by
  induction trace with
  | refl => rfl
  | step _ first _ ih =>
      have attempted := from_of_attempt wellFormed inside first
      obtain ⟨kept, size⟩ := install_wellFormed wellFormed attempted.installed
      rw [ih kept (size ▸ inside), attempted.next]
      exact attempted.outcome.continuation_stop

/-- In front of tokens that end with a semicolon it does not matter what follows them. -/
theorem abreast_append {tokens : List Token} (closed : Token.Closed tokens)
    (file : Option String) (tail : List Token) (stop further : Location)
    : Cursor.Abreast id tail (.ofTokens file tokens stop)
        (.ofTokens file (tokens ++ tail) further) := by
  cases last : tokens.getLast? with
  | none =>
      rw [List.getLast?_eq_none_iff.mp last]
      exact .inr ⟨rfl, rfl⟩
  | some mark =>
      refine .inl ⟨?_, .inr ⟨mark, last, closed mark last⟩⟩
      rw [funext Token.relocate_id, List.map_id']
      rfl

/-- The trace of a closed text is made alike when more text follows it. -/
theorem Trace.exists_of_append {scope : Nat} {tree after : ScopeTree} {file : Option String}
    {tokens : List Token} {stop : Location} {attempts : List Attempt} {next : Cursor}
    (trace : Trace scope tree (.ofTokens file tokens stop) attempts after next)
    (finished : next.rest = []) (wellFormed : tree.WellFormed) (inside : scope < tree.size)
    (closed : Token.Closed tokens) (tail : List Token) (further : Location)
    : ∃ others reached,
        Trace scope tree (.ofTokens file (tokens ++ tail) further) others after reached
        ∧ reached.rest = tail
        ∧ others.filterMap Attempt.statement? = attempts.filterMap Attempt.statement?
        ∧ others.filterMap Attempt.error? = attempts.filterMap Attempt.error? := by
  obtain ⟨others, reached, followed, resumed, statements, errors⟩ :=
    trace.exists_of_abreast finished Function.injective_id.injOn wellFormed inside
      (fun _ => ScopeTree.mem_names_of_own?)
      (abreast_append closed file tail stop further)
  rw [ScopeTree.relocateSince_id, ScopeTree.relocateSince_id] at followed
  rw [funext Statement.relocate_id, List.map_id'] at statements
  rw [funext ParseError.relocate_id, List.map_id'] at errors
  exact ⟨others, reached, followed, resumed, statements, errors⟩

/-- The trace of a text is made alike, but for places, where the text stands further on. -/
theorem Trace.exists_of_relocate {scope : Nat} {tree after : ScopeTree} {file : Option String}
    {tokens : List Token} {stop : Location} {attempts : List Attempt} {next : Cursor}
    (trace : Trace scope tree (.ofTokens file tokens stop) attempts after next)
    (finished : next.rest = []) (wellFormed : tree.WellFormed) (inside : scope < tree.size)
    {move : Location → Location} (injective : Function.Injective move) {cursor : Cursor}
    (rest : cursor.rest = tokens.map (Token.relocate move)) (ends : cursor.stop = move stop)
    : ∃ others reached,
        Trace scope tree cursor others (after.relocateSince move tree scope) reached
        ∧ reached.rest = []
        ∧ others.filterMap Attempt.statement?
          = (attempts.filterMap Attempt.statement?).map (Statement.relocate move)
        ∧ others.filterMap Attempt.error?
          = (attempts.filterMap Attempt.error?).map (ParseError.relocate move) := by
  have parallel : Cursor.Parallel move [] (.ofTokens file tokens stop) cursor :=
    ⟨by rw [rest, List.append_nil]; rfl, .inl ⟨rfl, ends⟩⟩
  have followed := trace.exists_of_abreast finished injective.injOn wellFormed inside
    (fun _ => ScopeTree.mem_names_of_own?) (.inl parallel)
  rwa [ScopeTree.relocateSince_self] at followed

/-- A text whose last token is a semicolon, and any text behind it. Parsing both in a row gives
the statements, errors and diagnostics of the first and then those of the second, moved behind
the first; the scopes are those that the second leaves, with the declarations it installed moved
likewise.
-/
theorem parseIn_append {tree : ScopeTree} (wellFormed : tree.WellFormed) {scope : Nat}
    (inside : scope < tree.size) (file : Option String) {first : String}
    (closed : Token.Closed (Token.tokenize first.toList)) (second : String)
    : let move := fun location => location + Text.byteLength first.toList
      ∃ left right whole, parseIn tree scope file first = .ok left
        ∧ parseIn left.scopes scope file second = .ok right
        ∧ parseIn tree scope file (first ++ second) = .ok whole
        ∧ Joins scope move left right whole := by
  intro move
  have injective : Function.Injective move := fun _ _ same => Nat.add_right_cancel same
  obtain ⟨left, leftParsed, _, leftRun⟩ := exists_session wellFormed inside file first
  obtain ⟨_, leftNext, leftTrace, leftFinished, _⟩ := parseIn_eq_ok_iff.mp leftParsed
  have size := leftRun.grows.size
  have kept := wellFormed.of_parents leftRun.grows.parents
  have alsoInside : scope < left.scopes.size := size ▸ inside
  obtain ⟨right, rightParsed, _, rightRun⟩ := exists_session kept alsoInside file second
  obtain ⟨_, rightNext, rightTrace, rightFinished, _⟩ := parseIn_eq_ok_iff.mp rightParsed
  -- The attempts at the first text, with the tokens of the second still ahead.
  obtain ⟨opening, reached, opened, resumed, statements, errors⟩ :=
    leftTrace.exists_of_append leftFinished wellFormed inside closed
      ((Token.tokenize second.toList).map (Token.relocate move))
      (Text.byteLength (first ++ second).toList)
  have stop : reached.stop = move (Text.byteLength second.toList) := by
    rw [opened.stop_eq wellFormed inside]
    simp only [Cursor.ofTokens, String.toList_append, Text.byteLength_append, move]
    exact Nat.add_comm _ _
  obtain ⟨closing, final, followed, finished, laterStatements, laterErrors⟩ :=
    rightTrace.exists_of_relocate rightFinished kept alsoInside injective resumed stop
  have wholeTrace := opened.append followed
  have tokens : Token.tokenize (first ++ second).toList
      = Token.tokenize first.toList ++ (Token.tokenize second.toList).map (Token.relocate move) := by
    rw [String.toList_append, Token.tokenize_append closed]
  rw [← tokens] at wholeTrace
  have parsed : parseIn tree scope file (first ++ second)
      = .ok ⟨opening ++ closing, right.scopes.relocateSince move left.scopes scope, scope,
          final.reports⟩ :=
    parseIn_eq_ok_iff.mpr ⟨rfl, final, wholeTrace, finished, rfl⟩
  obtain ⟨leftErrors, leftDiagnostics⟩ := leftRun.session_reports
  obtain ⟨rightErrors, rightDiagnostics⟩ := rightRun.session_reports
  obtain ⟨wholeErrors, wholeDiagnostics⟩ := (run_of_parseIn wellFormed inside parsed).session_reports
  refine ⟨left, right, _, leftParsed, rightParsed, parsed, ?_, ?_, ?_, rfl⟩
  · simp only [Session.tree, Module.relocate, List.filterMap_append, statements, laterStatements]
  · rw [wholeErrors, leftErrors, rightErrors, List.filterMap_append, errors, laterErrors]
  · rw [wholeDiagnostics, leftDiagnostics, rightDiagnostics, List.filterMap_append, errors,
      laterErrors, List.map_append, List.map_map, List.map_map]
    congr 1
    apply List.map_congr_left
    intro error _
    exact Reports.diagnose_relocate move file error

theorem parseIn_append_inner
    : let tree := (ScopeTree.new.push ScopeTree.root).1
      let first := "let a = 1 let b = a; = ; "
      let second := "5 a = b; let a = 2; type t = u; c"
      let move := fun location => location + Text.byteLength first.toList
      (tree.WellFormed ∧ 1 < tree.size ∧ Token.Closed (Token.tokenize first.toList))
      ∧ ∃ left right whole, parseIn tree 1 none first = .ok left
        ∧ parseIn left.scopes 1 none second = .ok right
        ∧ parseIn tree 1 none (first ++ second) = .ok whole
        ∧ Joins 1 move left right whole := by
  have closed : Token.Closed (Token.tokenize "let a = 1 let b = a; = ; ".toList) := by
    decide +kernel
  exact ⟨⟨by decide, by decide, closed⟩,
    parseIn_append (by decide) (by decide) none closed "5 a = b; let a = 2; type t = u; c"⟩

end LetLang.Parse

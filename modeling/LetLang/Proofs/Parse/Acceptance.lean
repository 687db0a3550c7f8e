import LetLang.Proofs.Parse.Reporting

/-! Acceptance of a text. A parse without errors is a derivation of the tokens from the grammar
in which names and numbers are right, and every such derivation is found.
-/

namespace LetLang.Parse

open LetLang.Grammar

/-- A derivation of the tokens ahead starts with a statement that can be read, and its
semicolon.
-/
theorem exists_readsStatement_of_derives {names : Set String} {cursor : Cursor}
    {statements : List Statement} (more : cursor.rest ≠ [])
    (derives : Derives names cursor.rest statements)
    : ∃ read middle found rest,
        cursor.Reads read middle
        ∧ ReadsStatement names read found middle
        ∧ middle.current.kind = .semicolon
        ∧ statements = found :: rest
        ∧ Derives (names ∪ found.declares) middle.advance.rest rest := by
  obtain ⟨form, admitted⟩ := derives
  generalize ahead : cursor.rest = tokens at more form
  cases form with
  | nil => exact absurd rfl more
  | @cons tokens mark later found rest body semicolon form =>
      obtain ⟨middle, reads, left⟩ := Cursor.exists_reads ahead
      have current := Cursor.current_eq_of_rest left
      have ends : ∀ value, found.value? = some value → EndsBefore value middle := by
        intro value _ name _
        rw [current, semicolon]
        simp
      refine ⟨tokens, middle, found, rest, reads, ⟨body, admitted.1, ends⟩, ?_, rfl, ?_, ?_⟩
      · rw [current, semicolon]
      · rw [Cursor.advance_rest, left]
        exact form
      · exact admitted.2

/-- A statement that has been read starts a derivation of the tokens. -/
theorem derives_cons {names : Set String} {cursor middle : Cursor} {read : List Token}
    {found : Statement} {rest : List Statement} (reads : cursor.Reads read middle)
    (whole : ReadsStatement names read found middle)
    (semicolon : middle.current.kind = .semicolon)
    (derives : Derives (names ∪ found.declares) middle.advance.rest rest)
    : Derives names cursor.rest (found :: rest) := by
  have last := Cursor.reads_current middle (by simp [semicolon])
  refine ⟨?_, whole.admissible, derives.admitted⟩
  rw [reads.rest_eq, last.rest_eq]
  exact .cons whole.form semicolon derives.form

/-- A run reads the statements of a derivation of the tokens if there is one, and otherwise
some attempt fails.
-/
theorem Run.derives_iff {scope : Nat} {tree after : ScopeTree} {cursor : Cursor}
    {attempts : List Attempt} {reports : Reports}
    (run : Run scope tree cursor attempts after reports) (statements : List Statement)
    : Derives (tree.names scope) cursor.rest statements
      ↔ attempts.filterMap Attempt.error? = []
        ∧ attempts.filterMap Attempt.statement? = statements := by
  induction run generalizing statements with
  | done finished =>
      rw [finished]
      constructor
      · intro derives
        obtain ⟨form, _⟩ := derives
        generalize none : ([] : List Token) = tokens at form
        cases form with
        | nil => exact ⟨rfl, rfl⟩
        | cons => simp at none
      · intro given
        obtain ⟨_, same⟩ := given
        cases same
        exact ⟨.nil, trivial⟩
  | @step tree cursor made rest after reports more wellFormed inside first later ih =>
      have decides : Decides (tree.isDeclared scope) (tree.names scope) :=
        ScopeTree.isDeclared_cases wellFormed inside
      have visible := names_install first.installed
      have next := first.next
      constructor
      · intro derives
        obtain ⟨read, middle, found, others, reads, whole, semicolon, rfl, remaining⟩ :=
          exists_readsStatement_of_derives more derives
        -- The parser reads at most one statement, so the attempt has read the derived one.
        have outcome := first.outcome.result_of_ahead decides reads whole semicolon
        simp only [outcome, continuation] at next visible
        have earlier := (ih others).mp (by rw [visible, next]; exact remaining)
        simpa [Attempt.error?, Attempt.statement?, outcome] using earlier
      · intro given
        obtain ⟨noError, same⟩ := given
        have attempted := first.outcome
        generalize result : made.outcome = outcome at attempted
        cases attempted with
        | @read read found middle reads whole semicolon =>
            simp only [List.filterMap_cons, Attempt.error?, Attempt.statement?, result]
              at noError same
            subst same
            simp only [result, continuation] at next visible
            have earlier := (ih _).mpr ⟨noError, rfl⟩
            rw [visible, next] at earlier
            exact derives_cons reads whole semicolon earlier
        | unterminated | broken => simp [Attempt.error?, result] at noError

/-- The derivations of the tokens of a session are its own module, if it has no errors. -/
theorem derives_iff_of_run {scope : Nat} {tree : ScopeTree} {file : Option String}
    {tokens : List Token} {stop : Location} {session : Session}
    (run : Run scope tree (.ofTokens file tokens stop) session.attempts session.scopes
      session.reports)
    (statements : List Statement)
    : Derives (tree.names scope) tokens statements
      ↔ session.errors = [] ∧ session.tree = ⟨statements⟩ := by
  obtain ⟨errors, _⟩ := run.reports_eq rfl
  have same := run.derives_iff statements
  simpa [Session.errors, Session.tree, errors, Cursor.ofTokens, Reports.empty] using same

/-- A text is parsed without errors exactly when its tokens are derivable with the names of the
scope, and the module is then the derived one. There is a result for every text.
-/
theorem parseIn_errors_eq_nil_iff_derives {tree : ScopeTree} (wellFormed : tree.WellFormed)
    {scope : Nat} (inside : scope < tree.size) (file : Option String) (source : String)
    : ∃ session, parseIn tree scope file source = .ok session
        ∧ (session.errors = []
            ↔ ∃ statements,
                Derives (tree.names scope) (Token.tokenize source.toList) statements)
        ∧ ∀ statements,
            Derives (tree.names scope) (Token.tokenize source.toList) statements
            ↔ session.errors = [] ∧ session.tree = ⟨statements⟩ := by
  obtain ⟨session, parsed, _, run⟩ := exists_session wellFormed inside file source
  have derives := derives_iff_of_run run
  refine ⟨session, parsed, ?_, derives⟩
  constructor
  · intro none
    exact ⟨session.tree.statements, (derives _).mpr ⟨none, rfl⟩⟩
  · intro given
    obtain ⟨statements, derived⟩ := given
    exact ((derives statements).mp derived).1

theorem parseIn_errors_eq_nil_iff_derives_inner
    : let tree := (ScopeTree.new.push ScopeTree.root).1
      let source := "type t = number; let x: t = 007; x = x = 1;"
      (tree.WellFormed ∧ 1 < tree.size)
      ∧ ∃ session, parseIn tree 1 none source = .ok session
        ∧ (session.errors = []
            ↔ ∃ statements, Derives (tree.names 1) (Token.tokenize source.toList) statements)
        ∧ ∀ statements,
            Derives (tree.names 1) (Token.tokenize source.toList) statements
            ↔ session.errors = [] ∧ session.tree = ⟨statements⟩ :=
  ⟨by decide, parseIn_errors_eq_nil_iff_derives (by decide) (by decide) none _⟩

end LetLang.Parse

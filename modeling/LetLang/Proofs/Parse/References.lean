import LetLang.Proofs.Parse.Declarations
import LetLang.Proofs.Parse.Recovery

/-! Declaration before use. The names that a statement refers to were visible before the parse or
have been declared by an attempt further up in the text, whether that attempt has succeeded or
lacked its semicolon.
-/

namespace LetLang

-----------------------------------------------------------------------------------------
-- Where statements and declarations start
-----------------------------------------------------------------------------------------

theorem Statement.location_of_declaration? {statement : Statement} {declared : Declaration}
    (found : statement.declaration? = some declared)
    : declared.location = statement.location := by
  rw [declaration?_eq_some_iff.mp found]
  rfl

/-- A statement starts where its first token does. -/
theorem Grammar.StatementForm.location_eq {first : Token} {tokens : List Token}
    {statement : Statement} (form : StatementForm (first :: tokens) statement)
    : statement.location = first.start := by
  cases form <;> rfl

namespace Parse

open LetLang.Grammar

theorem location_of_reads {cursor middle : Cursor} {read : List Token} {found : Statement}
    (reads : cursor.Reads read middle) (form : StatementForm read found)
    : found.location = cursor.current.start := by
  cases reads with
  | nil => cases form
  | cons head _ =>
      rw [Cursor.current_eq_of_rest head]
      exact form.location_eq

section

variable {made : Attempt} {tree : ScopeTree} {scope : Nat} {cursor : Cursor}

theorem Attempt.From.location_of_declared (attempted : made.From tree scope cursor)
    {declared : Declaration} (installed : made.outcome.declared = some declared)
    : declared.location = cursor.current.start := by
  have outcome := attempted.outcome
  generalize made.outcome = result at outcome installed
  cases outcome with
  | read reads whole | unterminated reads whole =>
      rw [Statement.location_of_declaration? installed]
      exact location_of_reads reads whole.form
  | broken => cases installed

theorem Attempt.From.location_of_statement? (attempted : made.From tree scope cursor)
    {found : Statement} (result : made.statement? = some found)
    : found.location = cursor.current.start := by
  obtain ⟨_, _, reads, whole, _⟩ := attempted.reads_of_statement? result
  exact location_of_reads reads whole.form

/-- The next attempt starts behind the first token of this one. -/
theorem Attempt.From.exists_next (attempted : made.From tree scope cursor)
    {tokens : List Token} {first : Nat}
    (sorted : tokens.Pairwise fun left right => left.start < right.start)
    (bounded : ∀ token ∈ tokens, token.start < cursor.stop)
    (stands : cursor.StandsAt tokens first) (more : first < tokens.length)
    : made.next.stop = cursor.stop
      ∧ ∃ next, first < next ∧ made.next.StandsAt tokens next := by
  obtain ⟨stop, next, resumed, range⟩ := attempted.range sorted bounded stands more
  refine ⟨stop, next, ?_, resumed⟩
  rcases range with ⟨_, range⟩ | ⟨_, _, range⟩
  · exact range.progress
  · exact Nat.lt_of_lt_of_le (Nat.lt_succ_self first)
      ((Nat.le_max_right _ _).trans range.least.1.1)

end

-----------------------------------------------------------------------------------------
-- Runs
-----------------------------------------------------------------------------------------

section

variable {scope : Nat} {tree after : ScopeTree} {cursor : Cursor} {attempts : List Attempt}
  {reports : Reports} {tokens : List Token} {first : Nat}

theorem Run.exists_standsAt (run : Run scope tree cursor attempts after reports)
    (sorted : tokens.Pairwise fun left right => left.start < right.start)
    (bounded : ∀ token ∈ tokens, token.start < cursor.stop)
    (stands : cursor.StandsAt tokens first) {made : Attempt} (member : made ∈ attempts)
    : made.start.stop = cursor.stop
      ∧ ∃ index, first ≤ index ∧ index < tokens.length ∧ made.start.StandsAt tokens index := by
  induction run generalizing first with
  | done => cases member
  | step more _ _ attempted _ ih =>
      have inside := stands.lt_length more
      rcases List.mem_cons.mp member with rfl | member
      · rw [attempted.start]
        exact ⟨rfl, first, Nat.le_refl _, inside, stands⟩
      · obtain ⟨stop, next, further, resumed⟩ :=
          attempted.exists_next sorted bounded stands inside
        obtain ⟨ends, index, lower, upper, starts⟩ :=
          ih (fun token member => stop ▸ bounded token member) resumed member
        exact ⟨ends.trans stop, index, Nat.le_of_lt (Nat.lt_of_lt_of_le further lower), upper,
          starts⟩

/-- What an attempt sees beyond the names of the tree was declared by an attempt that started
before it. The induction is over the run; the first attempt is before all others.
-/
theorem Run.mem_names_before (run : Run scope tree cursor attempts after reports)
    (sorted : tokens.Pairwise fun left right => left.start < right.start)
    (bounded : ∀ token ∈ tokens, token.start < cursor.stop)
    (stands : cursor.StandsAt tokens first) {made : Attempt} (member : made ∈ attempts)
    {name : String} (visible : name ∈ made.before.names scope)
    : name ∈ tree.names scope
      ∨ ∃ declared ∈ declaredBy attempts,
          declared.name.text = name ∧ declared.location < made.start.current.start := by
  induction run generalizing first with
  | done => cases member
  | @step tree cursor opening rest after reports more _ _ attempted later ih =>
      have inside := stands.lt_length more
      rcases List.mem_cons.mp member with rfl | member
      · exact .inl (attempted.before ▸ visible)
      obtain ⟨stop, next, further, resumed⟩ := attempted.exists_next sorted bounded stands inside
      have remaining : ∀ token ∈ tokens, token.start < opening.next.stop :=
        fun token member => stop ▸ bounded token member
      rcases ih remaining resumed member with earlier | ⟨declared, among, same, before⟩
      · rw [names_install attempted.installed] at earlier
        rcases earlier with old | new
        · exact .inl old
        cases installed : opening.outcome.declared with
        | none => simp [installed, Declaration.namesOf] at new
        | some declared =>
            rw [installed] at new
            refine .inr ⟨declared, ?_, (Set.mem_singleton_iff.mp new).symm, ?_⟩
            · exact List.mem_filterMap.mpr ⟨opening, List.mem_cons_self, installed⟩
            obtain ⟨_, index, lower, upper, starts⟩ :=
              later.exists_standsAt sorted remaining resumed member
            rw [attempted.location_of_declared installed,
              stands.current (List.getElem?_eq_getElem inside),
              starts.current (List.getElem?_eq_getElem upper)]
            exact List.pairwise_iff_getElem.mp sorted first index inside upper
              (Nat.lt_of_lt_of_le further lower)
      · refine .inr ⟨declared, ?_, same, before⟩
        obtain ⟨other, listed, installed⟩ := List.mem_filterMap.mp among
        exact List.mem_filterMap.mpr ⟨other, List.mem_cons_of_mem _ listed, installed⟩

end

/-- No two declarations of a module have one name. -/
theorem Run.declarations_pairwise_ne {scope : Nat} {tree : ScopeTree} {cursor : Cursor}
    {session : Session}
    (run : Run scope tree cursor session.attempts session.scopes session.reports)
    : session.tree.declarations.Pairwise fun left right => left.name.text ≠ right.name.text := by
  have installed : ∀ made ∈ session.attempts, ∀ found declared,
      made.statement? = some found → found.declaration? = some declared
      → made.outcome.declared = some declared := by
    intro made member found declared result same
    obtain ⟨_, _, attempted⟩ := run.exists_from member
    obtain ⟨_, _, _, _, declares⟩ := attempted.reads_of_statement? result
    exact declares.trans same
  simp only [Session.tree, Module.declarations]
  rw [List.pairwise_filterMap, List.pairwise_filterMap]
  apply run.pairwise_ne.imp_of_mem
  intro left right leftAmong rightAmong different one found two other first same second again
  exact different first second (installed left leftAmong one first found same)
    (installed right rightAmong two second other again)

/-- Every name that a statement of the module refers to was visible before the parse or ends up
declared further up in the text. So no statement refers to itself or to a later declaration, and
no two declarations have one name.
-/
theorem parseIn_declares_before_use {tree : ScopeTree} (wellFormed : tree.WellFormed)
    {scope : Nat} (inside : scope < tree.size) (file : Option String) (source : String)
    : ∃ session, parseIn tree scope file source = .ok session
        ∧ (∀ statement ∈ session.tree.statements, ∀ name ∈ statement.references,
            name ∈ tree.names scope
            ∨ ∃ declared, session.lookup name = .ok (some declared)
                ∧ declared.location < statement.location)
        ∧ (∀ statement ∈ session.tree.statements, ∀ declared ∈ session.tree.declarations,
            declared.name.text ∈ statement.references
            → declared.location < statement.location)
        ∧ session.tree.declarations.Pairwise fun left right =>
            left.name.text ≠ right.name.text := by
  obtain ⟨session, parsed, active, run⟩ := exists_session wellFormed inside file source
  have bound : ∀ declared ∈ declaredBy session.attempts,
      session.lookup declared.name.text = .ok (some declared) := by
    intro declared member
    rw [Session.lookup, active]
    exact ScopeTree.lookup_of_own? ((run.own?_iff _ _).mpr (.inr ⟨member, rfl⟩))
  have earlier : ∀ statement ∈ session.tree.statements, ∀ name ∈ statement.references,
      name ∈ tree.names scope
      ∨ ∃ declared, session.lookup name = .ok (some declared)
          ∧ declared.location < statement.location := by
    intro statement member name refers
    obtain ⟨made, among, result⟩ := List.mem_filterMap.mp member
    obtain ⟨_, _, attempted⟩ := run.exists_from among
    obtain ⟨_, _, _, whole, _⟩ := attempted.reads_of_statement? result
    have visible : name ∈ made.before.names scope := by
      rw [attempted.before]
      exact whole.admissible.visible name refers
    have seen := run.mem_names_before (Token.tokenize_sorted source.toList)
      (fun token member => Token.start_lt_of_mem_tokenize member)
      (Cursor.standsAt_ofTokens file _ _) among visible
    rcases seen with old | ⟨declared, installed, rfl, before⟩
    · exact .inl old
    · refine .inr ⟨declared, bound declared installed, ?_⟩
      rwa [attempted.location_of_statement? result, ← attempted.start]
  refine ⟨session, parsed, earlier, ?_, run.declarations_pairwise_ne⟩
  intro statement member declared among refers
  obtain ⟨made, listed, result⟩ := Session.mem_declarations_iff.mp among
  obtain ⟨_, _, attempted⟩ := run.exists_from listed
  obtain ⟨_, _, _, _, installed⟩ := attempted.reads_of_statement? result
  have own : declared ∈ declaredBy session.attempts :=
    List.mem_filterMap.mpr ⟨made, listed, installed⟩
  rcases earlier statement member _ refers with old | ⟨other, found, before⟩
  · exact absurd old (run.fresh own)
  · rw [bound declared own] at found
    obtain rfl := Option.some.inj (Except.ok.inj found)
    exact before

theorem parseIn_declares_before_use_inner
    : let tree := (ScopeTree.new.push ScopeTree.root).1
      (tree.WellFormed ∧ 1 < tree.size)
      ∧ ∃ session,
          parseIn tree 1 none "let x = 1 let y = x; y = z; let x = 2; type t = t; x = y = x;"
            = .ok session
        ∧ (∀ statement ∈ session.tree.statements, ∀ name ∈ statement.references,
            name ∈ tree.names 1
            ∨ ∃ declared, session.lookup name = .ok (some declared)
                ∧ declared.location < statement.location)
        ∧ (∀ statement ∈ session.tree.statements, ∀ declared ∈ session.tree.declarations,
            declared.name.text ∈ statement.references
            → declared.location < statement.location)
        ∧ session.tree.declarations.Pairwise fun left right =>
            left.name.text ≠ right.name.text :=
  ⟨by decide, parseIn_declares_before_use (by decide) (by decide) none _⟩

end Parse

end LetLang

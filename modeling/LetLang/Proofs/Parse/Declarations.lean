import LetLang.Proofs.Parse.Attempts

/-! What a parse does to the scopes: the table of one scope grows by the declarations that were
parsed, under names that were not visible before, and all else stays as it is.
-/

namespace LetLang

/-- A tree with more bindings in the table of one scope, and otherwise the same. -/
structure ScopeTree.Grows (before : ScopeTree) (scope : Nat) (after : ScopeTree) : Prop where
  size : after.size = before.size
  parents
    : ∀ index : Nat,
        after.scopes[index]?.map Scope.parent = before.scopes[index]?.map Scope.parent
  others : ∀ index : Nat, index ≠ scope → after.scopes[index]? = before.scopes[index]?
  kept
    : ∀ name declaration,
        before.own? scope name = some declaration → after.own? scope name = some declaration

-----------------------------------------------------------------------------------------
-- Growing tables
-----------------------------------------------------------------------------------------

namespace ScopeTree

variable {tree middle after : ScopeTree} {scope : Nat}

theorem Grows.refl (tree : ScopeTree) (scope : Nat) : tree.Grows scope tree :=
  ⟨rfl, fun _ => rfl, fun _ _ => rfl, fun _ _ bound => bound⟩

theorem Grows.trans (first : tree.Grows scope middle) (second : middle.Grows scope after)
    : tree.Grows scope after where
  size := second.size.trans first.size
  parents index := (second.parents index).trans (first.parents index)
  others index other := (second.others index other).trans (first.others index other)
  kept name declaration bound := second.kept name declaration (first.kept name declaration bound)

/-- Declaring a name that the scope does not bind loses no binding. -/
theorem grows_declare {name : String} {declaration : Declaration}
    (declared : tree.declare scope name declaration = .ok after)
    (fresh : tree.own? scope name = none)
    : tree.Grows scope after where
  size := declare_size declared
  parents := declare_parent declared
  others index other := by
    rw [declare_getElem? declared]
    simp [other]
  kept old declaration bound := by
    have different : old ≠ name := by
      intro same
      rw [same, fresh] at bound
      cases bound
    rw [declare_own? declared, if_neg (fun both => different both.2), bound]

theorem own?_eq_none_of_not_mem {name : String} (hidden : name ∉ tree.names scope)
    : tree.own? scope name = none := by
  cases bound : tree.own? scope name with
  | none => rfl
  | some declaration => exact absurd (Visible.own bound) hidden

end ScopeTree

theorem Session.mem_declarations_iff {session : Session} {declared : Declaration}
    : declared ∈ session.tree.declarations
      ↔ ∃ made ∈ session.attempts, made.statement? = some (.declaration declared) := by
  simp [Session.tree, Module.declarations, List.mem_filterMap,
    Statement.declaration?_eq_some_iff]

namespace Parse

open LetLang.Grammar

/-- An attempt began like a declaration and has failed for want of a semicolon. -/
def Attempt.Unclosed (made : Attempt) : Prop :=
  (made.start.current.kind = .letKeyword ∨ made.start.current.kind = .typeKeyword)
  ∧ ∃ error, made.error? = some error ∧ error.expected? = some (.token .semicolon)

/-- The declaration that an attempt parsed: its statement or, if only the semicolon is missing,
what the tokens up to there derive.
-/
inductive Attempt.Declares (made : Attempt) (declared : Declaration) : Prop
  | read (statement : made.statement? = some (.declaration declared))
  | unclosed {tokens} (unclosed : made.Unclosed)
    (ahead : made.start.rest = tokens ++ made.outcome.stopped.rest)
    (form : StatementForm tokens (.declaration declared))

/-- What a session does to the scopes that it is given: the table of one scope grows by its
declarations.
-/
structure Installs (tree : ScopeTree) (scope : Nat) (session : Session) : Prop where
  grows : tree.Grows scope session.scopes
  /-- The new bindings are the declarations of the module and those that lack only their
  semicolon.
  -/
  new_iff
    : ∀ name declared,
        tree.own? scope name = none ∧ session.scopes.own? scope name = some declared
        ↔ declared.name.text = name
          ∧ (declared ∈ session.tree.declarations
            ∨ ∃ made ∈ session.attempts, made.Unclosed ∧ made.Declares declared)
  unclosed : ∀ made ∈ session.attempts, made.Unclosed → ∃! declared, made.Declares declared
  distinct
    : session.attempts.Pairwise fun left right =>
        ∀ first second,
          left.Declares first → right.Declares second → first.name.text ≠ second.name.text
  hidden
    : ∀ made ∈ session.attempts, ∀ declared,
        made.Declares declared → declared.name.text ∉ tree.names scope
  /-- Each attempt finds the scopes that the one before it has left. -/
  chained
    : session.attempts.map Attempt.before ++ [session.scopes]
      = tree :: session.attempts.map Attempt.after
  kept
    : ∀ made ∈ session.attempts,
        made.statement? = none → ¬made.Unclosed → made.after = made.before
  found
    : ∀ declared ∈ session.tree.declarations,
        session.lookup declared.name.text = .ok (some declared)
        ∧ session.tree.declaration? declared.name.text = some declared

/-- The declarations that attempts have installed, in order. -/
def declaredBy (attempts : List Attempt) : List Declaration :=
  attempts.filterMap fun made => made.outcome.declared

-----------------------------------------------------------------------------------------
-- The declaration of one attempt
-----------------------------------------------------------------------------------------

/-- A statement that was read starts at the current token. -/
theorem declaration?_isSome_iff {cursor middle : Cursor} {read : List Token}
    {found : Statement} (reads : cursor.Reads read middle) (form : StatementForm read found)
    : found.declaration?.isSome = true
      ↔ cursor.current.kind = .letKeyword ∨ cursor.current.kind = .typeKeyword := by
  cases reads with
  | nil => cases form
  | cons head _ =>
      rw [Cursor.current_eq_of_rest head]
      exact form.keyword_iff

section

variable {made : Attempt} {tree : ScopeTree} {scope : Nat} {cursor : Cursor}

/-- What an attempt installs is what it parsed. -/
theorem Attempt.From.declares_iff (attempted : made.From tree scope cursor)
    (declared : Declaration)
    : made.Declares declared ↔ made.outcome.declared = some declared := by
  have start := attempted.start
  have outcome := attempted.outcome
  generalize same : made.outcome = result at outcome
  cases outcome with
  | read reads whole semicolon =>
      constructor
      · intro declares
        cases declares with
        | read found =>
            simp only [Attempt.statement?, same, Option.some.injEq] at found
            rw [found]
            rfl
        | unclosed unclosed => simp [Attempt.Unclosed, Attempt.error?, same] at unclosed
      · intro installed
        apply Attempt.Declares.read
        simpa [Attempt.statement?, same] using Statement.declaration?_eq_some_iff.mp installed
  | @unterminated read found middle reads whole missing =>
      have ahead : made.start.rest = read ++ made.outcome.stopped.rest := by
        rw [start, same, reads.rest_eq]
        rfl
      constructor
      · intro declares
        cases declares with
        | read found => simp [Attempt.statement?, same] at found
        | unclosed _ other form =>
            obtain rfl := List.append_cancel_right (ahead.symm.trans other)
            rw [whole.form.unique form]
            rfl
      · intro installed
        have isDeclaration := Statement.declaration?_eq_some_iff.mp installed
        have keyword := (declaration?_isSome_iff reads whole.form).mp (by rw [isDeclaration]; rfl)
        refine .unclosed ⟨start ▸ keyword, middle.unterminated, ?_, rfl⟩ ahead
          (isDeclaration ▸ whole.form)
        simp [Attempt.error?, same]
  | broken reads other hopeless =>
      constructor
      · intro declares
        cases declares with
        | read found => simp [Attempt.statement?, same] at found
        | unclosed unclosed =>
            obtain ⟨_, error, failed, expected⟩ := unclosed
            simp only [Attempt.error?, same, Option.some.injEq] at failed
            exact absurd (failed ▸ expected) other
      · intro installed
        cases installed

/-- An attempt that lacks only the semicolon of its declaration has one. -/
theorem Attempt.From.exists_declares (attempted : made.From tree scope cursor)
    (unclosed : made.Unclosed)
    : ∃ declared, made.Declares declared := by
  obtain ⟨keyword, error, failed, expected⟩ := unclosed
  rw [attempted.start] at keyword
  simp only [attempted.declares_iff]
  have outcome := attempted.outcome
  generalize same : made.outcome = result at outcome
  cases outcome with
  | read reads whole semicolon => simp [Attempt.error?, same] at failed
  | unterminated reads whole missing =>
      exact Option.isSome_iff_exists.mp ((declaration?_isSome_iff reads whole.form).mpr keyword)
  | broken reads other hopeless =>
      simp only [Attempt.error?, same, Option.some.injEq] at failed
      exact absurd (failed ▸ expected) other

/-- An attempt that parsed no declaration leaves the scopes alone. -/
theorem Attempt.From.after_eq_before (attempted : made.From tree scope cursor)
    (nothing : ∀ declared, ¬made.Declares declared)
    : made.after = made.before := by
  have installed := attempted.installed
  have none : made.outcome.declared = none :=
    Option.eq_none_iff_forall_ne_some.mpr fun declared some =>
      nothing declared ((attempted.declares_iff declared).mpr some)
  rw [none] at installed
  cases installed
  exact attempted.before.symm

/-- What an attempt installs was not visible. -/
theorem Attempt.From.fresh (attempted : made.From tree scope cursor) {declared : Declaration}
    (installed : made.outcome.declared = some declared)
    : declared.name.text ∉ tree.names scope := by
  have outcome := attempted.outcome
  generalize made.outcome = result at outcome installed
  cases outcome with
  | read _ whole | unterminated _ whole =>
      exact whole.admissible.fresh _ (Statement.mem_declares_iff.mpr ⟨declared, installed, rfl⟩)
  | broken => cases installed

/-- One attempt: its scope binds what it bound before and what the attempt parsed. -/
theorem Attempt.From.own?_iff (attempted : made.From tree scope cursor) (name : String)
    (declared : Declaration)
    : made.after.own? scope name = some declared
      ↔ tree.own? scope name = some declared
        ∨ made.outcome.declared = some declared ∧ declared.name.text = name := by
  have installed := attempted.installed
  cases new : made.outcome.declared with
  | none =>
      rw [new] at installed
      cases installed
      simp
  | some other =>
      have hidden := ScopeTree.own?_eq_none_of_not_mem (attempted.fresh new)
      rw [new] at installed
      rw [ScopeTree.declare_own? installed]
      by_cases same : name = other.name.text
      · subst same
        simp only [and_self, if_true, hidden, Option.some.injEq, reduceCtorEq, false_or]
        exact ⟨fun same => ⟨same, by rw [same]⟩, fun both => both.1⟩
      · simp only [same, and_false, if_false, Option.some.injEq]
        refine ⟨.inl, ?_⟩
        intro either
        rcases either with old | ⟨rfl, text⟩
        · exact old
        · exact absurd text.symm same

theorem Attempt.From.grows (attempted : made.From tree scope cursor)
    : tree.Grows scope made.after := by
  have installed := attempted.installed
  cases new : made.outcome.declared with
  | none =>
      rw [new] at installed
      cases installed
      exact .refl _ _
  | some other =>
      have hidden := ScopeTree.own?_eq_none_of_not_mem (attempted.fresh new)
      rw [new] at installed
      exact ScopeTree.grows_declare installed hidden

end

-----------------------------------------------------------------------------------------
-- The declarations of a run
-----------------------------------------------------------------------------------------

section

variable {scope : Nat} {tree after : ScopeTree} {cursor : Cursor} {attempts : List Attempt}
  {reports : Reports}

theorem Run.exists_from (run : Run scope tree cursor attempts after reports) {made : Attempt}
    (member : made ∈ attempts)
    : ∃ tree cursor, made.From tree scope cursor := by
  induction run with
  | done => cases member
  | step _ _ _ first _ ih =>
      rcases List.mem_cons.mp member with rfl | member
      · exact ⟨_, _, first⟩
      · exact ih member

/-- Each attempt starts with the scopes that the one before it left. -/
theorem Run.before_append_eq (run : Run scope tree cursor attempts after reports)
    : attempts.map Attempt.before ++ [after] = tree :: attempts.map Attempt.after := by
  induction run with
  | done => rfl
  | step _ _ _ first _ ih => simp [first.before, ih]

theorem Run.grows (run : Run scope tree cursor attempts after reports)
    : tree.Grows scope after := by
  induction run with
  | done => exact .refl _ _
  | step _ _ _ first _ ih => exact first.grows.trans ih

theorem Run.own?_iff (run : Run scope tree cursor attempts after reports) (name : String)
    (declared : Declaration)
    : after.own? scope name = some declared
      ↔ tree.own? scope name = some declared
        ∨ declared ∈ declaredBy attempts ∧ declared.name.text = name := by
  induction run with
  | done => simp [declaredBy]
  | step _ _ _ first _ ih =>
      rw [ih, first.own?_iff]
      simp only [declaredBy, List.mem_filterMap, List.mem_cons, exists_eq_or_imp]
      rw [or_and_right, or_assoc]

/-- What a run declares was not visible before it. -/
theorem Run.fresh (run : Run scope tree cursor attempts after reports) {declared : Declaration}
    (member : declared ∈ declaredBy attempts)
    : declared.name.text ∉ tree.names scope := by
  induction run with
  | done => cases member
  | step _ _ _ first _ ih =>
      obtain ⟨made, among, installed⟩ := List.mem_filterMap.mp member
      rcases List.mem_cons.mp among with rfl | among
      · exact first.fresh installed
      · have hidden := ih (List.mem_filterMap.mpr ⟨made, among, installed⟩)
        rw [names_install first.installed] at hidden
        exact fun visible => hidden (.inl visible)

/-- No two attempts of a run declare one name: what the first declares is visible to the
other.
-/
theorem Run.pairwise_ne (run : Run scope tree cursor attempts after reports)
    : attempts.Pairwise fun left right =>
        ∀ first second,
          left.outcome.declared = some first → right.outcome.declared = some second
          → first.name.text ≠ second.name.text := by
  induction run with
  | done => exact .nil
  | @step tree cursor made rest after reports _ _ _ attempted later ih =>
      refine .cons ?_ ih
      intro other among first second left right same
      have hidden := later.fresh (List.mem_filterMap.mpr ⟨other, among, right⟩)
      rw [names_install attempted.installed, left, ← same] at hidden
      exact hidden (.inr rfl)

end

/-- The declarations are those of the module and those that lack only their semicolon. -/
theorem mem_declaredBy_iff {session : Session}
    (declares
      : ∀ made ∈ session.attempts, ∀ declared,
          made.Declares declared ↔ made.outcome.declared = some declared)
    {declared : Declaration}
    : declared ∈ declaredBy session.attempts
      ↔ declared ∈ session.tree.declarations
        ∨ ∃ made ∈ session.attempts, made.Unclosed ∧ made.Declares declared := by
  rw [Session.mem_declarations_iff, declaredBy, List.mem_filterMap]
  constructor
  · intro given
    obtain ⟨made, among, installed⟩ := given
    rcases (declares made among declared).mpr installed with found | ⟨unclosed, ahead, form⟩
    · exact .inl ⟨made, among, found⟩
    · exact .inr ⟨made, among, unclosed, .unclosed unclosed ahead form⟩
  · intro either
    rcases either with ⟨made, among, found⟩ | ⟨made, among, _, parsed⟩
    · exact ⟨made, among, (declares made among declared).mp (.read found)⟩
    · exact ⟨made, among, (declares made among declared).mp parsed⟩

/-- Every parse grows the table of its scope by the declarations of the module and by those that
lack only their semicolon, all under different and formerly invisible names. Every other failed
attempt leaves the scopes as they are.
-/
theorem parseIn_grows {tree : ScopeTree} (wellFormed : tree.WellFormed) {scope : Nat}
    (inside : scope < tree.size) (file : Option String) (source : String)
    : ∃ session, parseIn tree scope file source = .ok session ∧ Installs tree scope session := by
  obtain ⟨session, parsed, active, run⟩ := exists_session wellFormed inside file source
  have declares : ∀ made ∈ session.attempts, ∀ declared,
      made.Declares declared ↔ made.outcome.declared = some declared := by
    intro made member declared
    obtain ⟨_, _, attempted⟩ := run.exists_from member
    exact attempted.declares_iff declared
  have read : ∀ declared ∈ session.tree.declarations,
      session.scopes.own? scope declared.name.text = some declared := by
    intro declared member
    exact (run.own?_iff _ _).mpr (.inr ⟨(mem_declaredBy_iff declares).mpr (.inl member), rfl⟩)
  refine ⟨session, parsed, run.grows, ?_, ?_, ?_, ?_, run.before_append_eq, ?_, ?_⟩
  · intro name declared
    rw [run.own?_iff, ← mem_declaredBy_iff declares]
    constructor
    · intro given
      obtain ⟨unbound, either⟩ := given
      rcases either with old | ⟨member, text⟩
      · simp [unbound] at old
      · exact ⟨text, member⟩
    · intro given
      obtain ⟨text, member⟩ := given
      have hidden := ScopeTree.own?_eq_none_of_not_mem (run.fresh member)
      exact ⟨text ▸ hidden, .inr ⟨member, text⟩⟩
  · intro made among unclosed
    obtain ⟨_, _, attempted⟩ := run.exists_from among
    obtain ⟨declared, parsed⟩ := attempted.exists_declares unclosed
    refine ⟨declared, parsed, ?_⟩
    intro other again
    rw [declares made among] at parsed again
    exact Option.some.inj (again.symm.trans parsed)
  · apply run.pairwise_ne.imp_of_mem
    intro left right leftAmong rightAmong different first second one two
    exact different first second ((declares left leftAmong first).mp one)
      ((declares right rightAmong second).mp two)
  · intro made among declared parsed
    exact run.fresh (List.mem_filterMap.mpr ⟨made, among, (declares made among _).mp parsed⟩)
  · intro made among failed closed
    obtain ⟨_, _, attempted⟩ := run.exists_from among
    apply attempted.after_eq_before
    intro declared parsed
    cases parsed with
    | read found => simp [failed] at found
    | unclosed unclosed => exact closed unclosed
  · intro declared member
    constructor
    · rw [Session.lookup, active]
      exact ScopeTree.lookup_of_own? (read declared member)
    · have found : (session.tree.declaration? declared.name.text).isSome = true :=
        List.find?_isSome.mpr ⟨declared, member, beq_self_eq_true _⟩
      obtain ⟨first, here⟩ := Option.isSome_iff_exists.mp found
      have text := beq_iff_eq.mp (List.find?_some (p := fun other : Declaration =>
        other.name.text == declared.name.text) here)
      have bound := read first (List.mem_of_find?_eq_some here)
      rw [text, read declared member] at bound
      rw [here, ← Option.some.inj bound]

theorem parseIn_grows_inner
    : let tree := (ScopeTree.new.push ScopeTree.root).1
      (tree.WellFormed ∧ 1 < tree.size)
      ∧ ∃ session,
          parseIn tree 1 none "let x = 1 let y = x; type t = q; z; y = x; let w = 2 3"
            = .ok session
          ∧ Installs tree 1 session :=
  ⟨by decide, parseIn_grows (by decide) (by decide) none _⟩

end Parse

end LetLang

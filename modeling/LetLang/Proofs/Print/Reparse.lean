import LetLang.Proofs.Parse.Acceptance
import LetLang.Proofs.Parse.Declarations
import LetLang.Proofs.Print.Derivation

/-! Parsing what was printed. The text of a parsed module is parsed without errors exactly when
every name that it refers to is visible or declared in it, and then the module comes back except
for its locations.
-/

namespace LetLang

open LetLang.Grammar

-----------------------------------------------------------------------------------------
-- Locations and types do not matter
-----------------------------------------------------------------------------------------

theorem Expr.references_unplaced (value : Expr) : value.unplaced.references = value.references := by
  induction value with
  | atom leaf => cases leaf <;> rfl
  | assignment link value ih => simp [unplaced, references, ih, Identifier.unplaced]

theorem Expr.leaf_unplaced (value : Expr) : value.unplaced.leaf = value.leaf.unplaced := by
  induction value with
  | atom leaf => rfl
  | assignment link value ih => simp [unplaced, ih]

theorem Expr.printOnto_unplaced (out : String) (value : Expr)
    : value.unplaced.printOnto out = value.printOnto out := by
  induction value generalizing out with
  | atom leaf => cases leaf <;> rfl
  | assignment link value ih => simp [unplaced, printOnto, ih, Identifier.unplaced]

namespace Statement

theorem references_unplaced (statement : Statement)
    : statement.unplaced.references = statement.references := by
  cases statement with
  | expression location value => exact value.references_unplaced
  | declaration declared =>
      cases declared with
      | binding location name ascription initializer =>
          cases ascription <;>
            simp [unplaced, Declaration.unplaced, references, Declaration.references,
              Expr.references_unplaced, Identifier.unplaced]
      | typeAlias => rfl

theorem declares_unplaced (statement : Statement)
    : statement.unplaced.declares = statement.declares := by
  cases statement with
  | expression => rfl
  | declaration declared => cases declared <;> rfl

theorem value?_unplaced (statement : Statement)
    : statement.unplaced.value? = statement.value?.map Expr.unplaced := by
  cases statement with
  | expression => rfl
  | declaration declared => cases declared <;> rfl

theorem admissible_unplaced_iff {names : Set String} {statement : Statement}
    : statement.unplaced.Admissible names ↔ statement.Admissible names := by
  have finite : (∀ value, statement.unplaced.value? = some value → value.leaf.IsFinite)
      ↔ ∀ value, statement.value? = some value → value.leaf.IsFinite := by
    rw [value?_unplaced]
    cases statement.value? with
    | none => simp
    | some value =>
        have same : value.leaf.unplaced.IsFinite ↔ value.leaf.IsFinite := by
          cases value.leaf <;> rfl
        simpa [Expr.leaf_unplaced] using same
  constructor
  · intro given
    obtain ⟨visible, fresh, value⟩ := given
    exact ⟨statement.references_unplaced ▸ visible, statement.declares_unplaced ▸ fresh,
      finite.mp value⟩
  · intro given
    obtain ⟨visible, fresh, value⟩ := given
    exact ⟨statement.references_unplaced ▸ visible, statement.declares_unplaced ▸ fresh,
      finite.mpr value⟩

theorem printOnto_unplaced (options : PrintOptions) (out : String) (statement : Statement)
    : statement.unplaced.printOnto options out = statement.printOnto options out := by
  cases statement with
  | expression location value => rw [unplaced, printOnto, printOnto, Expr.printOnto_unplaced]
  | declaration declared =>
      cases declared with
      | binding location name ascription initializer =>
          cases ascription <;>
            simp [unplaced, Declaration.unplaced, printOnto, Declaration.printOnto,
              Expr.printOnto_unplaced, printAscription, Identifier.unplaced]
      | typeAlias => rfl

/-- What is printed is the statement or, if types are left out, the statement without its type. -/
theorem shown_eq_or (options : PrintOptions) (statement : Statement)
    : statement.shown options = statement
      ∨ options.stripTypes = true ∧ statement.shown options = statement.untyped := by
  unfold shown
  cases options.stripTypes with
  | false => exact .inl rfl
  | true => exact .inr ⟨rfl, rfl⟩

theorem printOnto_shown (options : PrintOptions) (out : String) (statement : Statement)
    : (statement.shown options).printOnto options out = statement.printOnto options out := by
  rcases shown_eq_or options statement with same | ⟨stripped, same⟩
  · rw [same]
  rw [same]
  cases statement with
  | expression => rfl
  | declaration declared =>
      cases declared with
      | binding location name ascription initializer =>
          cases ascription <;>
            simp [untyped, Declaration.untyped, printOnto, Declaration.printOnto,
              printAscription, stripped]
      | typeAlias => rfl

theorem declares_shown (options : PrintOptions) (statement : Statement)
    : (statement.shown options).declares = statement.declares := by
  rcases shown_eq_or options statement with same | ⟨_, same⟩
  · rw [same]
  rw [same]
  cases statement with
  | expression => rfl
  | declaration declared => cases declared <;> rfl

theorem value?_shown (options : PrintOptions) (statement : Statement)
    : (statement.shown options).value? = statement.value? := by
  rcases shown_eq_or options statement with same | ⟨_, same⟩
  · rw [same]
  rw [same]
  cases statement with
  | expression => rfl
  | declaration declared => cases declared <;> rfl

theorem references_shown_subset (options : PrintOptions) (statement : Statement)
    : (statement.shown options).references ⊆ statement.references := by
  rcases shown_eq_or options statement with same | ⟨_, same⟩
  · rw [same]
    exact List.Subset.refl _
  rw [same]
  cases statement with
  | expression => exact List.Subset.refl _
  | declaration declared =>
      cases declared with
      | binding => exact List.subset_append_right _ _
      | typeAlias => exact List.Subset.refl _

theorem printable_shown (options : PrintOptions) {statement : Statement}
    (printable : statement.Printable)
    : (statement.shown options).Printable := by
  rcases shown_eq_or options statement with same | ⟨_, same⟩
  · rwa [same]
  rw [same]
  cases statement with
  | expression => exact printable
  | declaration declared =>
      cases declared with
      | binding => exact ⟨printable.1, by simp, printable.2.2⟩
      | typeAlias => exact printable

end Statement

theorem Module.printRest_eq_of_forall {options : PrintOptions} {change : Statement → Statement}
    (same
      : ∀ out statement,
          (change statement).printOnto options out = statement.printOnto options out)
    (out : String) (statements : List Statement)
    : printRest options out (statements.map change) = printRest options out statements := by
  induction statements generalizing out with
  | nil => rfl
  | cons statement rest ih => rw [List.map_cons, printRest, printRest, same, ih]

/-- A change of statements that leaves their texts alone leaves the text of the module alone. -/
theorem Module.print_map {options : PrintOptions} {change : Statement → Statement}
    (same
      : ∀ out statement,
          (change statement).printOnto options out = statement.printOnto options out)
    (statements : List Statement)
    : print options ⟨statements.map change⟩ = print options ⟨statements⟩ := by
  cases statements with
  | nil => rfl
  | cons first rest => simp only [print, List.map_cons, same, printRest_eq_of_forall same]

theorem Module.exists_declares_iff {tree : Module} {name : String}
    : (∃ statement ∈ tree.statements, name ∈ statement.declares)
      ↔ ∃ declared ∈ tree.declarations, declared.name.text = name := by
  simp only [Statement.mem_declares_iff, declarations, List.mem_filterMap]
  constructor
  · intro given
    obtain ⟨statement, member, declared, found, text⟩ := given
    exact ⟨declared, ⟨statement, member, found⟩, text⟩
  · intro given
    obtain ⟨declared, ⟨statement, member, found⟩, text⟩ := given
    exact ⟨statement, member, declared, found, text⟩

namespace Grammar

theorem scoped_unplaced_iff {names : Set String} {statements : List Statement}
    : Scoped names (statements.map Statement.unplaced) ↔ Scoped names statements := by
  induction statements generalizing names with
  | nil => rfl
  | cons statement rest ih =>
      rw [List.map_cons, Scoped, Scoped, Statement.admissible_unplaced_iff,
        Statement.declares_unplaced, ih]

/-- What admitted statements refer to is visible or declared by one of them. -/
theorem Scoped.references_mem {names : Set String} {statements : List Statement}
    (admitted : Scoped names statements) {statement : Statement}
    (member : statement ∈ statements) {name : String} (refers : name ∈ statement.references)
    : name ∈ names ∨ ∃ other ∈ statements, name ∈ other.declares := by
  induction statements generalizing names with
  | nil => cases member
  | cons first rest ih =>
      obtain ⟨admissible, later⟩ := admitted
      rcases List.mem_cons.mp member with rfl | member
      · exact .inl (admissible.visible name refers)
      · rcases ih later member with (known | own) | ⟨other, among, declared⟩
        · exact .inl known
        · exact .inr ⟨first, List.mem_cons_self, own⟩
        · exact .inr ⟨other, List.mem_cons_of_mem _ among, declared⟩

end Grammar

namespace Parse

-----------------------------------------------------------------------------------------
-- What a parse reads can be printed
-----------------------------------------------------------------------------------------

section

variable {tokens : List Token}
  (names : ∀ token ∈ tokens, token.kind = .identifier → Token.IsName token.text)

include names

theorem printable_of_exprForm {value : Expr} (form : ExprForm tokens value)
    (finite : value.leaf.IsFinite)
    : value.Printable := by
  induction form with
  | atom leaf =>
      cases leaf with
      | identifier kind => exact names _ List.mem_cons_self kind
      | number kind => exact ⟨_, rfl, finite⟩
      | boolean => trivial
  | assignment name _ _ ih =>
      rw [Expr.leaf_assignment] at finite
      refine ⟨names _ List.mem_cons_self name, ih ?_ finite⟩
      exact fun token member => names token (List.mem_cons_of_mem _ (List.mem_cons_of_mem _ member))

theorem printable_of_statementForm {statement : Statement}
    (form : StatementForm tokens statement)
    (finite : ∀ value, statement.value? = some value → value.leaf.IsFinite)
    : statement.Printable := by
  cases form with
  | binding keyword name equals right =>
      simp only [List.forall_mem_cons] at names
      obtain ⟨_, bound, _, others⟩ := names
      exact ⟨bound name, by simp, printable_of_exprForm others right (finite _ rfl)⟩
  | typedBinding keyword name colon typeName equals right =>
      simp only [List.forall_mem_cons] at names
      obtain ⟨_, bound, _, ascribed, _, others⟩ := names
      refine ⟨bound name, ?_, printable_of_exprForm others right (finite _ rfl)⟩
      intro other same
      cases same
      exact ascribed typeName
  | typeAlias keyword name equals right =>
      simp only [List.forall_mem_cons] at names
      obtain ⟨_, bound, _, aliased, _⟩ := names
      exact ⟨bound name, aliased right⟩
  | expression whole => exact printable_of_exprForm names whole (finite _ rfl)

end

section

variable {scope : Nat} {tree after : ScopeTree} {cursor : Cursor} {attempts : List Attempt}
  {reports : Reports}

theorem Run.printable (run : Run scope tree cursor attempts after reports)
    (names : ∀ token ∈ cursor.rest, token.kind = .identifier → Token.IsName token.text)
    {statement : Statement} (member : statement ∈ attempts.filterMap Attempt.statement?)
    : statement.Printable := by
  induction run with
  | done => cases member
  | @step tree cursor made rest after reports _ _ _ first later ih =>
      have ahead := first.outcome.continuation_suffix
      rw [← first.next] at ahead
      obtain ⟨other, among, read⟩ := List.mem_filterMap.mp member
      rcases List.mem_cons.mp among with rfl | among
      · obtain ⟨tokens, middle, reads, whole, _⟩ := first.reads_of_statement? read
        apply printable_of_statementForm _ whole.form whole.admissible.finite
        intro token inside
        exact names token (by rw [reads.rest_eq]; exact List.mem_append_left _ inside)
      · apply ih _ (List.mem_filterMap.mpr ⟨other, among, read⟩)
        exact fun token inside => names token (ahead.subset inside)

/-- What a statement of a run declares was not visible before the run. -/
theorem Run.declares_fresh (run : Run scope tree cursor attempts after reports)
    {statement : Statement} (member : statement ∈ attempts.filterMap Attempt.statement?)
    {name : String} (declares : name ∈ statement.declares)
    : name ∉ tree.names scope := by
  obtain ⟨made, among, read⟩ := List.mem_filterMap.mp member
  obtain ⟨declared, found, rfl⟩ := Statement.mem_declares_iff.mp declares
  obtain ⟨_, _, attempted⟩ := run.exists_from among
  rw [Statement.declaration?_eq_some_iff.mp found] at read
  have installed := (attempted.declares_iff declared).mp (.read read)
  exact run.fresh (List.mem_filterMap.mpr ⟨made, among, installed⟩)

/-- The statements of a run can be read with fewer names than the run had, if those that are
missing are not referred to. The names declared by failed attempts are such names: no statement
of the run declares them, so a reference to one of them is a reference to a missing name.
-/
theorem Run.scoped_shown (run : Run scope tree cursor attempts after reports)
    (options : PrintOptions) {known : Set String} (fewer : known ⊆ tree.names scope)
    (closed
      : ∀ statement ∈ attempts.filterMap Attempt.statement?,
          ∀ name ∈ (statement.shown options).references,
            name ∈ known
            ∨ ∃ other ∈ attempts.filterMap Attempt.statement?, name ∈ other.declares)
    : Scoped known ((attempts.filterMap Attempt.statement?).map (Statement.shown options)) := by
  induction run generalizing known with
  | done => trivial
  | @step tree cursor made rest after reports more wellFormed inside first later ih =>
      have fresh := @(Run.step more wellFormed inside first later).declares_fresh
      have visible := names_install first.installed
      cases read : made.statement? with
      | none =>
          rw [List.filterMap_cons_none read] at closed ⊢
          apply ih _ closed
          rw [visible]
          exact fewer.trans Set.subset_union_left
      | some found =>
          obtain ⟨_, _, _, ⟨_, admissible, _⟩, declared⟩ := first.reads_of_statement? read
          rw [List.filterMap_cons_some read] at closed fresh ⊢
          rw [declared] at visible
          have grown : made.after.names scope = tree.names scope ∪ found.declares := visible
          refine ⟨⟨?_, ?_, ?_⟩, ?_⟩
          · intro name refers
            rcases closed found List.mem_cons_self name refers with here | ⟨other, among, declares⟩
            · exact here
            · -- A name that is declared only later was not visible to the statement.
              have seen := admissible.visible name (found.references_shown_subset options refers)
              exact absurd seen (fresh among declares)
          · rw [Statement.declares_shown]
            exact fun name declares seen => admissible.fresh name declares (fewer seen)
          · rw [Statement.value?_shown]
            exact admissible.finite
          · rw [Statement.declares_shown]
            apply ih
            · rw [grown]
              exact Set.union_subset_union_left _ fewer
            · intro statement member name refers
              rcases closed statement (List.mem_cons_of_mem _ member) name refers
                with here | ⟨other, among, declares⟩
              · exact .inl (.inl here)
              · rcases List.mem_cons.mp among with rfl | among
                · exact .inl (.inr declares)
                · exact .inr ⟨other, among, declares⟩

end

/-- The printed statements of a session are admitted exactly when all that they refer to is
visible or declared in the module.
-/
theorem Run.scoped_shown_iff {scope : Nat} {tree : ScopeTree} {cursor : Cursor}
    {session : Session}
    (run : Run scope tree cursor session.attempts session.scopes session.reports)
    (options : PrintOptions)
    : Scoped (tree.names scope) (session.tree.statements.map (Statement.shown options))
      ↔ ∀ statement ∈ session.tree.statements,
          ∀ name ∈ (statement.shown options).references,
            name ∈ tree.names scope
            ∨ ∃ declared ∈ session.tree.declarations, declared.name.text = name := by
  constructor
  · intro admitted statement member name refers
    rcases admitted.references_mem (List.mem_map_of_mem member) refers
      with here | ⟨_, among, declares⟩
    · exact .inl here
    · obtain ⟨other, read, rfl⟩ := List.mem_map.mp among
      rw [Statement.declares_shown] at declares
      exact .inr (Module.exists_declares_iff.mp ⟨other, read, declares⟩)
  · intro closed
    apply run.scoped_shown options (Set.Subset.refl _)
    intro statement member name refers
    exact (closed statement member name refers).imp_right Module.exists_declares_iff.mpr

/-- The tokens of a printed module derive what was printed. -/
theorem exists_moduleForm_print {options : PrintOptions} {tree : Module}
    (blank : ∀ c ∈ options.newLine.toList, Token.isBlank c = true)
    (printable : ∀ statement ∈ tree.statements, statement.Printable)
    : ∃ found,
        ModuleForm (Token.tokenize (tree.print options).toList) found
        ∧ found.map Statement.unplaced
          = (tree.statements.map (Statement.shown options)).map Statement.unplaced := by
  apply exists_moduleForm _ (spellings_print blank printable)
  intro statement member
  obtain ⟨original, among, rfl⟩ := List.mem_map.mp member
  exact Statement.printable_shown options (printable original among)

/-- For every text there is a parse of what is printed of its module. It has no errors exactly
when every name that is printed as a reference is visible from the scope or declared in the
module, as it is if the first parse had no errors, and it then gives the module that was printed,
except for locations, and so the same text.
-/
theorem parseIn_print {tree : ScopeTree} (wellFormed : tree.WellFormed) {scope : Nat}
    (inside : scope < tree.size) (file printedFile : Option String) (source : String)
    (options : PrintOptions)
    (blank : ∀ c ∈ options.newLine.toList, Token.isBlank c = true)
    : ∃ first second,
        parseIn tree scope file source = .ok first
        ∧ parseIn tree scope printedFile (first.tree.print options) = .ok second
        ∧ (second.errors = []
            ↔ ∀ statement ∈ first.tree.statements,
                ∀ name ∈ (statement.shown options).references,
                  name ∈ tree.names scope
                  ∨ ∃ declared ∈ first.tree.declarations, declared.name.text = name)
        ∧ (first.errors = [] → second.errors = [])
        ∧ (second.errors = []
            → second.tree.unplaced
                = Module.unplaced ⟨first.tree.statements.map (Statement.shown options)⟩
              ∧ second.tree.print options = first.tree.print options) := by
  obtain ⟨first, parsed, _, firstRun⟩ := exists_session wellFormed inside file source
  obtain ⟨second, printed, _, secondRun⟩ := exists_session wellFormed inside printedFile
    (first.tree.print options)
  refine ⟨first, second, parsed, printed, ?_⟩
  have printable : ∀ statement ∈ first.tree.statements, statement.Printable :=
    fun statement member => firstRun.printable
      (fun token among => Token.isName_of_mem_tokenize among) member
  obtain ⟨found, form, same⟩ := exists_moduleForm_print blank printable
  have references := firstRun.scoped_shown_iff options
  -- The printed tokens have one derivation, which is the module that was printed.
  have accepted : second.errors = []
      ↔ Scoped (tree.names scope) (first.tree.statements.map (Statement.shown options)) := by
    rw [← scoped_unplaced_iff, ← same, scoped_unplaced_iff]
    constructor
    · intro none
      obtain ⟨derived, admitted⟩ := (derives_iff_of_run secondRun second.tree.statements).mpr
        ⟨none, rfl⟩
      rwa [form.unique derived]
    · intro admitted
      exact ((derives_iff_of_run secondRun found).mp ⟨form, admitted⟩).1
  refine ⟨accepted.trans references, ?_, ?_⟩
  · intro none
    have admitted := ((derives_iff_of_run firstRun first.tree.statements).mpr ⟨none, rfl⟩).admitted
    apply (accepted.trans references).mpr
    intro statement member name refers
    have known := admitted.references_mem member (statement.references_shown_subset options refers)
    rwa [Module.exists_declares_iff] at known
  · intro none
    have derived := (derives_iff_of_run secondRun second.tree.statements).mpr ⟨none, rfl⟩
    have unplaced : second.tree.statements.map Statement.unplaced
        = (first.tree.statements.map (Statement.shown options)).map Statement.unplaced := by
      rw [← form.unique derived.form, same]
    refine ⟨congrArg Module.mk unplaced, ?_⟩
    calc second.tree.print options
        = Module.print options ⟨second.tree.statements.map Statement.unplaced⟩ :=
          (Module.print_map (Statement.printOnto_unplaced options) _).symm
      _ = Module.print options ⟨first.tree.statements.map (Statement.shown options)⟩ := by
          rw [unplaced, Module.print_map (Statement.printOnto_unplaced options)]
      _ = first.tree.print options := Module.print_map (Statement.printOnto_shown options) _

theorem parseIn_print_inner
    : let tree := (ScopeTree.new.push ScopeTree.root).1
      let options : PrintOptions := ⟨true, "\r\n", false⟩
      (tree.WellFormed ∧ 1 < tree.size ∧ ∀ c ∈ options.newLine.toList, Token.isBlank c = true)
      ∧ ∃ first second,
        parseIn tree 1 none "let a = 1 type t = q; let b: t = 100000000000000000000001; b = b;"
          = .ok first
        ∧ parseIn tree 1 none (first.tree.print options) = .ok second
        ∧ (second.errors = []
            ↔ ∀ statement ∈ first.tree.statements,
                ∀ name ∈ (statement.shown options).references,
                  name ∈ tree.names 1
                  ∨ ∃ declared ∈ first.tree.declarations, declared.name.text = name)
        ∧ (first.errors = [] → second.errors = [])
        ∧ (second.errors = []
            → second.tree.unplaced
                = Module.unplaced ⟨first.tree.statements.map (Statement.shown options)⟩
              ∧ second.tree.print options = first.tree.print options) :=
  ⟨⟨by decide, by decide, List.all_eq_true.mp rfl⟩,
    parseIn_print (by decide) (by decide) none none _ _ (List.all_eq_true.mp rfl)⟩

end Parse

end LetLang

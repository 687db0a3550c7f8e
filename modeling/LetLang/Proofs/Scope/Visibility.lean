import LetLang.Scope.Tree
import Mathlib.Data.Set.Finite.Basic
import Mathlib.Data.Set.Insert

/-! Which names a scope sees. A name is visible from the scope whose own table binds it and
from every scope inside that one; on a tree whose parents are earlier scopes, lookup never
faults and finds exactly the visible names.
-/

namespace LetLang.ScopeTree

/-- The parent of each scope is an earlier scope of the tree. -/
def WellFormed (tree : ScopeTree) : Prop :=
  ∀ (index : Nat) (scope : Scope) (parent : Nat),
    tree.scopes[index]? = some scope → scope.parent = some parent → parent < index

instance (tree : ScopeTree) : Decidable tree.WellFormed :=
  decidable_of_iff
    (∀ index (inside : index < tree.scopes.size),
      tree.scopes[index].parent.all (· < index) = true)
    ⟨fun earlier index scope parent found linked => by
      obtain ⟨inside, rfl⟩ := Array.getElem?_eq_some_iff.mp found
      simpa [linked] using earlier index inside,
    fun wellFormed index inside => by
      have found := Array.getElem?_eq_getElem inside
      cases linked : tree.scopes[index].parent with
      | none => rfl
      | some parent => simpa using wellFormed index _ parent found linked⟩

/-- The declaration that a scope's own table holds for a name. -/
def own? (tree : ScopeTree) (index : Nat) (name : String) : Option Declaration :=
  tree.scopes[index]?.bind fun scope => scope.bindings.get? name

/-- A name is bound by a scope itself or visible from the scope around it. -/
inductive Visible (tree : ScopeTree) (name : String) : Nat → Prop
  | own {index declaration} (bound : tree.own? index name = some declaration)
    : tree.Visible name index
  | outer {index scope parent} (found : tree.scopes[index]? = some scope)
    (linked : scope.parent = some parent) (above : tree.Visible name parent)
    : tree.Visible name index

/-- The names visible from a scope. -/
def names (tree : ScopeTree) (scope : Nat) : Set String :=
  {name | tree.Visible name scope}

theorem mem_names_of_own? {tree : ScopeTree} {scope : Nat} {name : String}
    (bound : (tree.own? scope name).isSome = true)
    : name ∈ tree.names scope := by
  obtain ⟨declaration, found⟩ := Option.isSome_iff_exists.mp bound
  exact .own found

/-- A visible name stands in the table of some scope, so there are finitely many. -/
theorem names_finite (tree : ScopeTree) (scope : Nat) : (tree.names scope).Finite := by
  let bound := tree.scopes.toList.flatMap fun found => found.bindings.entries.map Prod.fst
  refine (List.finite_toSet bound).subset ?_
  intro name visible
  change tree.Visible name scope at visible
  change name ∈ bound
  induction visible with
  | own binds =>
      obtain ⟨found, here, entry⟩ := Option.bind_eq_some_iff.mp binds
      obtain ⟨before, after, entries, _⟩ := List.lookup_eq_some_iff.mp entry
      refine List.mem_flatMap.mpr ⟨found, ?_, ?_⟩
      · exact Array.mem_toList_iff.mpr (Array.mem_of_getElem? here)
      · simp [entries]
  | outer _ _ _ ih => exact ih

-----------------------------------------------------------------------------------------
-- Lookup on a well-formed tree
-----------------------------------------------------------------------------------------

/-- The binding that a walk finds for a name. -/
def Walk.binding? (walk : Walk) (name : String) : Option (Nat × Declaration) :=
  walk.passed.findSome? fun passed =>
    (passed.2.bindings.get? name).map fun declaration => (passed.1, declaration)

theorem getElem?_of_lt {tree : ScopeTree} {index : Nat} (inside : index < tree.size)
    : ∃ scope, tree.scopes[index]? = some scope :=
  ⟨tree.scopes[index], Array.getElem?_eq_getElem inside⟩

theorem lt_size_of_getElem? {tree : ScopeTree} {index : Nat} {scope : Scope}
    (found : tree.scopes[index]? = some scope)
    : index < tree.size := by
  obtain ⟨inside, _⟩ := Array.getElem?_eq_some_iff.mp found
  exact inside

/-- One step of a walk: the scope itself, then the walk from its parent. -/
theorem walkFor_succ {tree : ScopeTree} {index : Nat} {scope : Scope} (steps : Nat)
    (found : tree.scopes[index]? = some scope)
    : tree.walkFor index (steps + 1)
      = match scope.parent with
        | none => ⟨[(index, scope)], none⟩
        | some parent =>
            ⟨(index, scope) :: (tree.walkFor parent steps).passed,
              (tree.walkFor parent steps).fault⟩ := by
  cases linked : scope.parent <;> simp [walkFor, found, linked]

/-- A walk ends at a scope without parent, by induction on its steps: each one goes to a
smaller index.
-/
theorem walkFor_fault_eq_none {tree : ScopeTree} (wellFormed : tree.WellFormed) {steps : Nat}
    {index : Nat} (inside : index < tree.size) (enough : index < steps)
    : (tree.walkFor index steps).fault = none := by
  induction steps generalizing index with
  | zero => omega
  | succ steps ih =>
      obtain ⟨scope, found⟩ := getElem?_of_lt inside
      rw [walkFor_succ steps found]
      cases linked : scope.parent with
      | none => rfl
      | some parent =>
          have earlier := wellFormed index scope parent found linked
          exact ih (by omega) (by omega)

/-- A walk meets a binding of exactly the visible names. -/
theorem walkFor_binding?_isSome_iff {tree : ScopeTree} (wellFormed : tree.WellFormed)
    {steps index : Nat} (inside : index < tree.size) (enough : index < steps) (name : String)
    : ((tree.walkFor index steps).binding? name).isSome = true ↔ tree.Visible name index := by
  induction steps generalizing index with
  | zero => omega
  | succ steps ih =>
      obtain ⟨scope, found⟩ := getElem?_of_lt inside
      have own : tree.own? index name = scope.bindings.get? name := by simp [own?, found]
      rw [walkFor_succ steps found]
      cases bound : scope.bindings.get? name with
      | some declaration =>
          have visible : tree.Visible name index := .own (own.trans bound)
          cases scope.parent <;> simp [Walk.binding?, bound, visible]
      | none =>
          cases linked : scope.parent with
          | none =>
              simp only [Walk.binding?, List.findSome?_cons, bound, Option.map_none,
                List.findSome?_nil, Option.isSome_none, Bool.false_eq_true, false_iff]
              intro visible
              cases visible with
              | own other => simp [own, bound] at other
              | outer again toParent _ =>
                  obtain rfl := Option.some.inj (found.symm.trans again)
                  simp [linked] at toParent
          | some parent =>
              have earlier := wellFormed index scope parent found linked
              have above := @ih parent (by omega) (by omega)
              simp only [Walk.binding?, List.findSome?_cons, bound, Option.map_none] at above ⊢
              refine above.trans ⟨.outer found linked, ?_⟩
              intro visible
              cases visible with
              | own other => simp [own, bound] at other
              | outer again toParent visible =>
                  obtain rfl := Option.some.inj (found.symm.trans again)
                  obtain rfl := Option.some.inj (linked.symm.trans toParent)
                  exact visible

theorem resolve_of_wellFormed {tree : ScopeTree} (wellFormed : tree.WellFormed) {scope : Nat}
    (inside : scope < tree.size) (name : String)
    : tree.resolve scope name = .ok ((tree.walk scope).binding? name) := by
  have ends : (tree.walk scope).fault = none :=
    walkFor_fault_eq_none wellFormed inside (by omega)
  unfold resolve
  simp only
  split
  · next bound => exact congrArg Except.ok bound.symm
  · next bound _ => exact congrArg Except.ok bound.symm
  · next fault _ broken =>
      rw [ends] at broken
      cases broken

/-- A name is either visible and declared, or neither; asking for it never faults. -/
theorem isDeclared_cases {tree : ScopeTree} (wellFormed : tree.WellFormed) {scope : Nat}
    (inside : scope < tree.size) (name : String)
    : name ∈ tree.names scope ∧ tree.isDeclared scope name = .ok true
      ∨ name ∉ tree.names scope ∧ tree.isDeclared scope name = .ok false := by
  have visible := walkFor_binding?_isSome_iff wellFormed inside
    (Nat.lt_succ_of_lt inside) name
  have answer : tree.isDeclared scope name
      = .ok ((tree.walk scope).binding? name).isSome := by
    rw [isDeclared, lookup, resolve_of_wellFormed wellFormed inside]
    simp [bind, Except.bind, pure, Except.pure]
  rw [answer]
  cases found : ((tree.walk scope).binding? name).isSome with
  | true => exact .inl ⟨visible.mp found, rfl⟩
  | false => exact .inr ⟨fun seen => by simp [walk, visible.mpr seen] at found, rfl⟩

/-- Scopes that see the same names answer alike. -/
theorem isDeclared_eq_of_names_eq {tree other : ScopeTree} (wellFormed : tree.WellFormed)
    (alsoWellFormed : other.WellFormed) {scope index : Nat} (inside : scope < tree.size)
    (alsoInside : index < other.size) (same : other.names index = tree.names scope)
    : other.isDeclared index = tree.isDeclared scope := by
  funext name
  rcases isDeclared_cases wellFormed inside name with ⟨seen, left⟩ | ⟨hidden, left⟩
  · rcases isDeclared_cases alsoWellFormed alsoInside name with ⟨_, right⟩ | ⟨absent, _⟩
    · rw [left, right]
    · exact absurd (same ▸ seen) absent
  · rcases isDeclared_cases alsoWellFormed alsoInside name with ⟨present, _⟩ | ⟨_, right⟩
    · exact absurd (same ▸ present) hidden
    · rw [left, right]

/-- A scope's own binding is the nearest one. -/
theorem lookup_of_own? {tree : ScopeTree} {scope : Nat} {name : String}
    {declaration : Declaration} (bound : tree.own? scope name = some declaration)
    : tree.lookup scope name = .ok (some declaration) := by
  obtain ⟨found, here, entry⟩ := Option.bind_eq_some_iff.mp bound
  have first : ∃ passed fault,
      tree.walk scope = ⟨(scope, found) :: passed, fault⟩ := by
    rw [walk, walkFor_succ tree.size here]
    cases found.parent <;> exact ⟨_, _, rfl⟩
  obtain ⟨passed, fault, walked⟩ := first
  simp [lookup, resolve, walked, entry, bind, Except.bind, pure, Except.pure]

-----------------------------------------------------------------------------------------
-- Trees with the same links
-----------------------------------------------------------------------------------------

section Links

variable {tree other : ScopeTree}
  (parents
    : ∀ index : Nat,
        other.scopes[index]?.map Scope.parent = tree.scopes[index]?.map Scope.parent)

include parents

theorem WellFormed.of_parents (wellFormed : tree.WellFormed) : other.WellFormed := by
  intro index found parent here linked
  have same := parents index
  rw [here] at same
  obtain ⟨old, there, linksAlike⟩ := Option.map_eq_some_iff.mp same.symm
  exact wellFormed index old parent there (linksAlike.trans linked)

/-- What is visible stays visible in a tree that binds at least the same names. -/
theorem Visible.mono {name : String}
    (owns
      : ∀ index, (tree.own? index name).isSome = true → (other.own? index name).isSome = true)
    {index : Nat} (visible : tree.Visible name index)
    : other.Visible name index := by
  induction visible with
  | @own index declaration bound =>
      obtain ⟨new, binds⟩ := Option.isSome_iff_exists.mp (owns index (by rw [bound]; rfl))
      exact .own binds
  | @outer index found parent here linked _ ih =>
      have same := parents index
      rw [here] at same
      obtain ⟨new, there, linksAlike⟩ := Option.map_eq_some_iff.mp same
      exact .outer there (linksAlike.trans linked) ih

end Links

-----------------------------------------------------------------------------------------
-- Declaring a name
-----------------------------------------------------------------------------------------

section Declare

variable {tree after : ScopeTree} {scope : Nat} {name : String} {declaration : Declaration}

theorem declare_eq_ok (inside : scope < tree.size) (name : String) (declaration : Declaration)
    : ∃ after, tree.declare scope name declaration = .ok after := by
  obtain ⟨found, here⟩ := getElem?_of_lt inside
  exact ⟨_, by rw [declare, get, here]; rfl⟩

/-- Only the scope declared into changes, and only in its table. -/
theorem declare_getElem? (declared : tree.declare scope name declaration = .ok after)
    (index : Nat)
    : after.scopes[index]?
      = tree.scopes[index]?.map fun found =>
          if index = scope then
            { found with bindings := found.bindings.insert name declaration }
          else
            found := by
  unfold declare get at declared
  cases here : tree.scopes[scope]? with
  | none => simp [here, bind, Except.bind] at declared
  | some found =>
      simp only [here, bind, Except.bind, pure, Except.pure, Except.ok.injEq] at declared
      subst declared
      by_cases same : index = scope
      · subst same
        have inside := lt_size_of_getElem? here
        simp [Array.getElem?_setIfInBounds_self_of_lt inside, here]
      · simp [Array.getElem?_setIfInBounds_ne (Ne.symm same), same]

theorem declare_size (declared : tree.declare scope name declaration = .ok after)
    : after.size = tree.size := by
  unfold declare get at declared
  cases here : tree.scopes[scope]? with
  | none => simp [here, bind, Except.bind] at declared
  | some found =>
      simp only [here, bind, Except.bind, pure, Except.pure, Except.ok.injEq] at declared
      subst declared
      simp [size]

theorem declare_parent (declared : tree.declare scope name declaration = .ok after)
    (index : Nat)
    : after.scopes[index]?.map Scope.parent = tree.scopes[index]?.map Scope.parent := by
  rw [declare_getElem? declared, Option.map_map]
  congr 1
  funext found
  simp only [Function.comp_apply]
  split <;> rfl

theorem declare_own? (declared : tree.declare scope name declaration = .ok after)
    (index : Nat) (other : String)
    : after.own? index other
      = if index = scope ∧ other = name then some declaration else tree.own? index other := by
  unfold own?
  rw [declare_getElem? declared]
  cases here : tree.scopes[index]? with
  | none =>
      have missing : index ≠ scope := by
        intro same
        subst same
        simp [declare, get, here, bind, Except.bind] at declared
      simp [missing]
  | some found =>
      by_cases same : index = scope
      · simp [same, BindingTable.get?_insert]
      · simp [same]

theorem WellFormed.declare (wellFormed : tree.WellFormed)
    (declared : tree.declare scope name declaration = .ok after)
    : after.WellFormed :=
  wellFormed.of_parents (declare_parent declared)

theorem visible_of_declare (declared : tree.declare scope name declaration = .ok after)
    {other : String} {index : Nat} (visible : after.Visible other index)
    : other = name ∨ tree.Visible other index := by
  induction visible with
  | own bound =>
      rw [declare_own? declared] at bound
      split at bound
      · next same => exact .inl same.2
      · exact .inr (.own bound)
  | @outer index found parent here linked _ ih =>
      have same := declare_parent declared index
      rw [here] at same
      obtain ⟨old, there, parents⟩ := Option.map_eq_some_iff.mp same.symm
      exact ih.imp_right fun above => .outer there (parents.trans linked) above

theorem Visible.declare (declared : tree.declare scope name declaration = .ok after)
    {other : String} {index : Nat} (visible : tree.Visible other index)
    : after.Visible other index := by
  apply visible.mono (declare_parent declared)
  intro index bound
  rw [declare_own? declared]
  split
  · rfl
  · exact bound

/-- Declaring a name makes it visible and hides nothing. -/
theorem names_declare (declared : tree.declare scope name declaration = .ok after)
    : after.names scope = insert name (tree.names scope) := by
  ext other
  refine ⟨visible_of_declare declared, ?_⟩
  intro either
  rcases either with rfl | visible
  · exact .own (by rw [declare_own? declared, if_pos ⟨rfl, rfl⟩])
  · exact visible.declare declared

end Declare

end LetLang.ScopeTree

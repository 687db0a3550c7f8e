import LetLang.Parse.Session
import LetLang.Proofs.Scope.Visibility
import LetLang.Proofs.Tree.Relocation

/-! Moving the declarations that a scope has got since an earlier state of the tree. Which names
are visible does not depend on where their declarations stand.
-/

namespace LetLang

/-- The table with its declarations moved, except under the names that are kept. -/
def BindingTable.relocateUnless (move : Location → Location) (kept : String → Bool)
    (table : BindingTable) : BindingTable :=
  ⟨table.entries.map fun entry =>
    if kept entry.1 then entry else (entry.1, entry.2.relocate move)⟩

/-- The tree in which those declarations of a scope have moved that it did not have in the tree
`base`.
-/
def ScopeTree.relocateSince (tree : ScopeTree) (move : Location → Location) (base : ScopeTree)
    (scope : Nat) : ScopeTree :=
  ⟨tree.scopes.modify scope fun found =>
    { found with
      bindings := found.bindings.relocateUnless move fun name =>
        (base.own? scope name).isSome }⟩

-----------------------------------------------------------------------------------------
-- Tables
-----------------------------------------------------------------------------------------

namespace BindingTable

variable {move : Location → Location} {kept : String → Bool}

theorem get?_relocateUnless (table : BindingTable) (name : String)
    : (table.relocateUnless move kept).get? name
      = (table.get? name).map fun declared =>
          if kept name then declared else declared.relocate move := by
  unfold get? relocateUnless
  simp only
  induction table.entries with
  | nil => rfl
  | cons entry entries ih =>
      rcases entry with ⟨key, bound⟩
      by_cases same : name = key
      · subst same
        cases keeps : kept name <;> simp [keeps]
      · have different : (name == key) = false := beq_eq_false_iff_ne.mpr same
        cases keeps : kept key <;> simp [keeps, List.lookup_cons, different, ih]

/-- A new declaration can move before or after it is bound. -/
theorem relocateUnless_insert {table : BindingTable} {name : String} (moves : kept name = false)
    (unbound : table.get? name = none) (declared : Declaration)
    : (table.insert name declared).relocateUnless move kept
      = (table.relocateUnless move kept).insert name (declared.relocate move) := by
  have alsoUnbound : (table.relocateUnless move kept).get? name = none := by
    rw [get?_relocateUnless, unbound]
    rfl
  unfold insert contains
  rw [unbound, alsoUnbound]
  simp [relocateUnless, moves]

theorem relocateUnless_id (table : BindingTable) : table.relocateUnless id kept = table := by
  simp [relocateUnless]

/-- Nothing moves in a table whose own names are all kept. -/
theorem relocateUnless_self {table : BindingTable}
    (keeps : ∀ name, (table.get? name).isSome = true → kept name = true)
    : table.relocateUnless move kept = table := by
  have same : (table.entries.map fun entry =>
      if kept entry.1 then entry else (entry.1, entry.2.relocate move))
        = table.entries.map id := by
    apply List.map_congr_left
    intro entry member
    apply if_pos
    apply keeps
    exact List.lookup_isSome_iff.mpr ⟨entry, member, beq_self_eq_true _⟩
  rw [relocateUnless, same, List.map_id]

end BindingTable

-----------------------------------------------------------------------------------------
-- Trees
-----------------------------------------------------------------------------------------

namespace ScopeTree

variable {move : Location → Location} {base tree after : ScopeTree} {scope : Nat}

theorem relocateSince_getElem? (index : Nat)
    : (tree.relocateSince move base scope).scopes[index]?
      = if scope = index then
          tree.scopes[index]?.map fun found =>
            { found with
              bindings := found.bindings.relocateUnless move fun name =>
                (base.own? scope name).isSome }
        else
          tree.scopes[index]? :=
  Array.getElem?_modify

theorem relocateSince_size : (tree.relocateSince move base scope).size = tree.size :=
  Array.size_modify

theorem relocateSince_parent (index : Nat)
    : (tree.relocateSince move base scope).scopes[index]?.map Scope.parent
      = tree.scopes[index]?.map Scope.parent := by
  rw [relocateSince_getElem?]
  split
  · rw [Option.map_map]
    rfl
  · rfl

theorem relocateSince_own?_isSome (index : Nat) (name : String)
    : ((tree.relocateSince move base scope).own? index name).isSome
      = (tree.own? index name).isSome := by
  unfold own?
  rw [relocateSince_getElem?]
  split
  · cases tree.scopes[index]? with
    | none => rfl
    | some found => simp [BindingTable.get?_relocateUnless]
  · rfl

theorem WellFormed.relocateSince (wellFormed : tree.WellFormed)
    : (tree.relocateSince move base scope).WellFormed :=
  wellFormed.of_parents relocateSince_parent

theorem names_relocateSince (index : Nat)
    : (tree.relocateSince move base scope).names index = tree.names index := by
  ext name
  constructor
  · intro visible
    apply visible.mono fun index => (relocateSince_parent index).symm
    intro index bound
    rwa [relocateSince_own?_isSome] at bound
  · intro visible
    apply visible.mono relocateSince_parent
    intro index bound
    rwa [relocateSince_own?_isSome]

/-- Where declarations stand does not matter to what is declared. -/
theorem isDeclared_relocateSince (wellFormed : tree.WellFormed) (inside : scope < tree.size)
    : (tree.relocateSince move base scope).isDeclared scope = tree.isDeclared scope :=
  isDeclared_eq_of_names_eq wellFormed wellFormed.relocateSince inside
    (by rwa [relocateSince_size]) (names_relocateSince scope)

theorem eq_of_getElem? {other : ScopeTree}
    (same : ∀ index : Nat, other.scopes[index]? = tree.scopes[index]?)
    : other = tree :=
  congrArg ScopeTree.mk (Array.ext_getElem? same)

/-- A new declaration can move before or after it is installed. -/
theorem install_relocateSince (inside : scope < tree.size) {declared : Option Declaration}
    (installed : Parse.install tree scope declared = .ok after)
    (new : ∀ found ∈ declared, base.own? scope found.name.text = none)
    (unbound : ∀ found ∈ declared, tree.own? scope found.name.text = none)
    : Parse.install (tree.relocateSince move base scope) scope
        (declared.map (Declaration.relocate move))
      = .ok (after.relocateSince move base scope) := by
  cases declared with
  | none =>
      cases installed
      rfl
  | some found =>
      have moves : (base.own? scope found.name.text).isSome = false := by rw [new found rfl]; rfl
      have alsoInside : scope < (tree.relocateSince move base scope).size := by
        rwa [relocateSince_size]
      obtain ⟨other, result⟩ := declare_eq_ok alsoInside found.name.text (found.relocate move)
      have same : other = after.relocateSince move base scope := by
        apply eq_of_getElem?
        intro index
        rw [declare_getElem? result, relocateSince_getElem?, relocateSince_getElem?,
          declare_getElem? installed]
        by_cases here : scope = index
        · subst here
          have absent := unbound found rfl
          cases entry : tree.scopes[scope]? with
          | none => simp
          | some old =>
              simp only [own?, entry, Option.bind_some] at absent
              have square := @BindingTable.relocateUnless_insert move
                (fun name => (base.own? scope name).isSome) old.bindings found.name.text moves
                absent found
              simp [square]
        · simp [here, Ne.symm here]
      rw [← same, ← result, Option.map_some, Parse.install, Declaration.relocate_name_text]

theorem relocateSince_id : tree.relocateSince id base scope = tree := by
  apply eq_of_getElem?
  intro index
  rw [relocateSince_getElem?]
  split
  · simp [BindingTable.relocateUnless_id]
  · rfl

theorem relocateSince_self : tree.relocateSince move tree scope = tree := by
  apply eq_of_getElem?
  intro index
  rw [relocateSince_getElem?]
  split
  · next here =>
      subst here
      cases entry : tree.scopes[scope]? with
      | none => rfl
      | some found =>
          have kept := @BindingTable.relocateUnless_self move
            (fun name => (tree.own? scope name).isSome) found.bindings
            (fun name bound => by simpa [own?, entry] using bound)
          rw [Option.map_some, kept]
  · rfl

end ScopeTree

end LetLang

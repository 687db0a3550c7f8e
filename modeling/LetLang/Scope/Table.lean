import LetLang.Tree.Module

/-! Binding tables: the declarations of one scope by their names. -/

namespace LetLang

/-- Declarations by name. A name has at most one entry. -/
structure BindingTable where
  entries : List (String × Declaration)
  deriving DecidableEq

namespace BindingTable

/-- The table without entries. -/
def empty : BindingTable :=
  ⟨[]⟩

/-- The declaration of a name. -/
def get? (table : BindingTable) (name : String) : Option Declaration :=
  table.entries.lookup name

/-- Whether a name is bound. -/
def contains (table : BindingTable) (name : String) : Bool :=
  (table.get? name).isSome

/-- The number of names that are bound. -/
def size (table : BindingTable) : Nat :=
  table.entries.length

/-- Binds a name, in place of any earlier declaration of it. -/
def insert (table : BindingTable) (name : String) (declaration : Declaration) : BindingTable :=
  if table.contains name then
    ⟨table.entries.map fun entry => if entry.1 == name then (name, declaration) else entry⟩
  else
    ⟨(name, declaration) :: table.entries⟩

theorem lookup_replace (name other : String) (declaration : Declaration)
    (entries : List (String × Declaration))
    : (entries.map fun entry =>
        if entry.1 == name then (name, declaration) else entry).lookup other
      = if other = name ∧ (entries.lookup name).isSome then some declaration
        else entries.lookup other := by
  simp only [beq_iff_eq]
  induction entries with
  | nil => simp
  | cons entry entries ih =>
      rcases entry with ⟨key, bound⟩
      by_cases hk : key = name
      · subst hk
        by_cases ho : other = key
        · simp [ho]
        · have hb : (other == key) = false := beq_eq_false_iff_ne.mpr ho
          simp [List.lookup_cons, hb, ho, ih]
      · have hn : (name == key) = false := beq_eq_false_iff_ne.mpr (Ne.symm hk)
        by_cases ho : other = key
        · simp [ho, hk]
        · have hb : (other == key) = false := beq_eq_false_iff_ne.mpr ho
          simp only [List.map_cons, hk, if_false, List.lookup_cons, hb, hn, ih]

/-- A name has the declaration that it was bound to last. -/
theorem get?_insert (table : BindingTable) (name other : String) (declaration : Declaration)
    : (table.insert name declaration).get? other
      = if other = name then some declaration else table.get? other := by
  unfold insert
  split
  · next hc =>
      simp only [contains, get?] at hc ⊢
      rw [lookup_replace]
      simp [hc]
  · simp only [get?, List.lookup_cons]
    by_cases ho : other = name
    · simp [ho]
    · simp [beq_eq_false_iff_ne.mpr ho, ho]

/-- The entries in the order of their names. -/
def sorted (table : BindingTable) : List (String × Declaration) :=
  table.entries.mergeSort fun left right => decide (left.1 ≤ right.1)

end BindingTable

end LetLang

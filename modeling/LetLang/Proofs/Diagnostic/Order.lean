import LetLang.Diagnostic.Collection
import Mathlib.Data.List.Basic

/-! The order of diagnostics. Sorting loses nothing and leaves diagnostics that tie in their order;
a list in order is known from its diagnostics at each file and position.
-/

namespace LetLang.Diagnostic

/-- What diagnostics are sorted by. -/
def key (diagnostic : Diagnostic) : Option String × Location :=
  (diagnostic.file, diagnostic.position)

/-- The diagnostics of one file and position. -/
def sharing (key : Option String × Location) (diagnostics : List Diagnostic) : List Diagnostic :=
  diagnostics.filter fun diagnostic => diagnostic.key = key

-----------------------------------------------------------------------------------------
-- Two diagnostics
-----------------------------------------------------------------------------------------

/-- The order of files: none before all, and the others by name. -/
def FileBefore (one : Option String) : Option String → Prop
  | none => False
  | some right =>
      match one with
      | none => True
      | some left => left < right

section

variable {one two three : Option String}

theorem FileBefore.trans (first : FileBefore one two) (second : FileBefore two three)
    : FileBefore one three := by
  cases three with
  | none => exact second
  | some right =>
      cases one with
      | none => trivial
      | some left =>
          cases two with
          | none => exact first.elim
          | some middle => exact String.lt_trans first second

theorem FileBefore.irrefl : ¬FileBefore one one := by
  cases one with
  | none => exact id
  | some name => exact String.lt_irrefl name

theorem fileBefore_trichotomy (one two : Option String)
    : FileBefore one two ∨ one = two ∨ FileBefore two one := by
  cases one with
  | none =>
      cases two with
      | none => exact .inr (.inl rfl)
      | some right => exact .inl trivial
  | some left =>
      cases two with
      | none => exact .inr (.inr trivial)
      | some right =>
          rcases Std.lt_trichotomy left right with less | rfl | greater
          · exact .inl less
          · exact .inr (.inl rfl)
          · exact .inr (.inr greater)

end

section

variable {left right : Diagnostic}

theorem comesBefore_of_file_eq (same : left.file = right.file)
    : comesBefore left right = true ↔ left.position ≤ right.position := by
  unfold comesBefore
  rw [same]
  cases right.file <;> simp

theorem comesBefore_of_file_ne (differs : left.file ≠ right.file)
    : comesBefore left right = true ↔ FileBefore left.file right.file := by
  unfold comesBefore
  cases one : left.file with
  | none =>
      cases two : right.file with
      | none => exact absurd (one.trans two.symm) differs
      | some right => exact iff_of_true rfl trivial
  | some left =>
      cases two : right.file with
      | none => exact iff_of_false Bool.false_ne_true id
      | some right =>
          have names : left ≠ right := by
            rintro rfl
            exact differs (one.trans two.symm)
          simp only [if_neg names]
          exact decide_eq_true_iff

theorem comesBefore_iff
    : comesBefore left right = true
      ↔ FileBefore left.file right.file
        ∨ left.file = right.file ∧ left.position ≤ right.position := by
  by_cases same : left.file = right.file
  · rw [comesBefore_of_file_eq same, same]
    simp [FileBefore.irrefl]
  · rw [comesBefore_of_file_ne same]
    simp [same]

theorem comesBefore_of_key_eq (same : left.key = right.key) : comesBefore left right = true := by
  obtain ⟨file, position⟩ := Prod.mk.inj same
  exact (comesBefore_of_file_eq file).mpr (Nat.le_of_eq position)

theorem comesBefore_total (left right : Diagnostic)
    : (comesBefore left right || comesBefore right left) = true := by
  rw [Bool.or_eq_true, comesBefore_iff, comesBefore_iff]
  rcases fileBefore_trichotomy left.file right.file with before | same | behind
  · exact .inl (.inl before)
  · rcases Nat.le_total left.position right.position with order | order
    · exact .inl (.inr ⟨same, order⟩)
    · exact .inr (.inr ⟨same.symm, order⟩)
  · exact .inr (.inl behind)

theorem comesBefore_trans (left middle right : Diagnostic)
    (first : comesBefore left middle = true) (second : comesBefore middle right = true)
    : comesBefore left right = true := by
  rw [comesBefore_iff] at *
  rcases first with before | ⟨same, order⟩
  · rcases second with again | ⟨same, _⟩
    · exact .inl (before.trans again)
    · exact .inl (same ▸ before)
  · rcases second with before | ⟨again, further⟩
    · exact .inl (same ▸ before)
    · exact .inr ⟨same.trans again, Nat.le_trans order further⟩

/-- Only diagnostics of one file and position can come in either order. -/
theorem key_eq_of_comesBefore (before : comesBefore left right = true)
    (behind : comesBefore right left = true)
    : left.key = right.key := by
  rw [comesBefore_iff] at *
  rcases before with less | ⟨same, order⟩
  · rcases behind with greater | ⟨same, _⟩
    · exact absurd (less.trans greater) FileBefore.irrefl
    · exact absurd (same ▸ less) FileBefore.irrefl
  · rcases behind with greater | ⟨_, further⟩
    · exact absurd (same ▸ greater) FileBefore.irrefl
    · exact Prod.ext same (Nat.le_antisymm order further)

end

-----------------------------------------------------------------------------------------
-- Lists
-----------------------------------------------------------------------------------------

section

variable {diagnostics first second : List Diagnostic}

theorem sharing_append (key : Option String × Location) (first second : List Diagnostic)
    : sharing key (first ++ second) = sharing key first ++ sharing key second :=
  List.filter_append ..

theorem mem_sharing {diagnostic : Diagnostic} {key : Option String × Location}
    : diagnostic ∈ sharing key diagnostics ↔ diagnostic ∈ diagnostics ∧ diagnostic.key = key := by
  simp [sharing]

theorem sort_perm (diagnostics : List Diagnostic) : (sort diagnostics).Perm diagnostics :=
  List.mergeSort_perm _ _

theorem pairwise_sort (diagnostics : List Diagnostic)
    : (sort diagnostics).Pairwise fun left right => comesBefore left right = true :=
  List.pairwise_mergeSort comesBefore_trans comesBefore_total _

/-- Diagnostics that tie keep their order. -/
theorem sharing_sort (key : Option String × Location) (diagnostics : List Diagnostic)
    : sharing key (sort diagnostics) = sharing key diagnostics := by
  have tied : (sharing key diagnostics).Pairwise fun left right => comesBefore left right = true := by
    apply List.pairwise_of_forall_mem_list
    intro left one right two
    exact comesBefore_of_key_eq ((mem_sharing.mp one).2.trans (mem_sharing.mp two).2.symm)
  have within : (sharing key diagnostics).Sublist (sort diagnostics) :=
    List.sublist_mergeSort comesBefore_trans comesBefore_total tied
      List.filter_sublist
  have again : (sharing key diagnostics).Sublist (sharing key (sort diagnostics)) := by
    have filtered := within.filter fun diagnostic => decide (diagnostic.key = key)
    simpa only [sharing, List.filter_filter, Bool.and_self] using filtered
  exact (again.eq_of_length ((sort_perm diagnostics).filter _).length_eq.symm).symm

theorem mem_of_sharing_eq (same : ∀ key, sharing key first = sharing key second)
    {diagnostic : Diagnostic} (member : diagnostic ∈ first)
    : diagnostic ∈ second := by
  have shared := mem_sharing.mpr ⟨member, rfl⟩
  rw [same] at shared
  exact (mem_sharing.mp shared).1

/-- A list in order is known from its diagnostics at each file and position. -/
theorem eq_of_sharing_eq
    (one : first.Pairwise fun left right => comesBefore left right = true)
    (two : second.Pairwise fun left right => comesBefore left right = true)
    (same : ∀ key, sharing key first = sharing key second)
    : first = second := by
  induction first generalizing second with
  | nil =>
      cases second with
      | nil => rfl
      | cons head tail => simpa [sharing] using same head.key
  | cons head tail ih =>
      cases second with
      | nil => simpa [sharing] using same head.key
      | cons other rest =>
          obtain ⟨lowest, sorted⟩ := List.pairwise_cons.mp one
          obtain ⟨alsoLowest, alsoSorted⟩ := List.pairwise_cons.mp two
          -- Each head stands somewhere in the other list, so it comes before and behind its head.
          have keys : head.key = other.key := by
            rcases List.mem_cons.mp (mem_of_sharing_eq same List.mem_cons_self) with rfl | later
            · rfl
            rcases List.mem_cons.mp
              (mem_of_sharing_eq (fun key => (same key).symm) List.mem_cons_self)
              with rfl | alsoLater
            · rfl
            exact key_eq_of_comesBefore (lowest other alsoLater) (alsoLowest head later)
          have heads : head = other := by
            have both := same head.key
            simp only [sharing, List.filter_cons, keys, decide_true, if_true] at both
            exact (List.cons.inj both).1
          subst heads
          rw [ih sorted alsoSorted]
          intro key
          have both := same key
          simp only [sharing, List.filter_cons] at both
          split at both
          · exact (List.cons.inj both).2
          · exact both

/-- Sorting gives the list in order that has the same diagnostics at each file and position. -/
theorem sort_eq_of_sharing_eq
    (sorted : first.Pairwise fun left right => comesBefore left right = true)
    (same : ∀ key, sharing key diagnostics = sharing key first)
    : sort diagnostics = first :=
  eq_of_sharing_eq (pairwise_sort diagnostics) sorted fun key =>
    (sharing_sort key diagnostics).trans (same key)

end

end LetLang.Diagnostic

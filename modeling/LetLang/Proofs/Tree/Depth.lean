import LetLang.Emit
import Mathlib.Data.List.Basic
import Mathlib.Order.MinMax

/-! How deeply assignments are nested. The depth of an expression is found by a loop; it is what
recursion along the tree counts, and a module is as deep as the deepest of its expressions.
-/

namespace LetLang

/-- The number of assignments, by recursion on the expression. -/
def Expr.linkCount : Expr → Nat
  | atom _ => 0
  | assignment _ value => value.linkCount + 1

theorem Expr.depth_eq_linkCount (expr : Expr) : expr.depth = expr.linkCount := by
  induction expr with
  | atom leaf => rfl
  | assignment link value ih => rw [depth_assignment, linkCount, ih]

namespace Module

/-- A module holds a chain of assignments that is too long for the JSON form. -/
def TooDeep (tree : Module) : Prop :=
  ∃ statement ∈ tree.statements, ∃ value, statement.value? = some value ∧ 256 < value.linkCount

/-- The greatest number of assignments in one expression of a module, or zero if there is none. -/
structure IsDeepest (tree : Module) (depth : Nat) : Prop where
  bound
    : ∀ statement ∈ tree.statements, ∀ value,
        statement.value? = some value → value.linkCount ≤ depth
  reached
    : depth = 0
      ∨ ∃ statement ∈ tree.statements, ∃ value,
          statement.value? = some value ∧ value.linkCount = depth

theorem lt_foldl_depth_iff {limit : Nat} (start : Nat) (statements : List Statement)
    : limit < statements.foldl (fun depth statement => max depth (statement.depth?.getD 0)) start
      ↔ limit < start
        ∨ ∃ statement ∈ statements, ∃ value,
            statement.value? = some value ∧ limit < value.linkCount := by
  induction statements generalizing start with
  | nil => simp
  | cons first rest ih =>
      have head : limit < first.depth?.getD 0
          ↔ ∃ value, first.value? = some value ∧ limit < value.linkCount := by
        unfold Statement.depth?
        cases first.value? <;> simp [Expr.depth_eq_linkCount]
      rw [List.foldl_cons, ih, lt_max_iff, head, List.exists_mem_cons_iff, or_assoc]

theorem lt_depth_iff {tree : Module} {limit : Nat}
    : limit < tree.depth
      ↔ ∃ statement ∈ tree.statements, ∃ value,
          statement.value? = some value ∧ limit < value.linkCount := by
  rw [depth, lt_foldl_depth_iff]
  simp

theorem tooDeep_iff (tree : Module) : tree.TooDeep ↔ Emit.depthLimit < tree.depth :=
  lt_depth_iff.symm

instance (tree : Module) : Decidable tree.TooDeep :=
  decidable_of_iff _ tree.tooDeep_iff.symm

theorem isDeepest_depth (tree : Module) : tree.IsDeepest tree.depth := by
  have bound : ∀ statement ∈ tree.statements, ∀ value,
      statement.value? = some value → value.linkCount ≤ tree.depth := by
    intro statement member value found
    refine Nat.le_of_not_lt fun deeper => ?_
    exact Nat.lt_irrefl _ (lt_depth_iff.mpr ⟨statement, member, value, found, deeper⟩)
  refine ⟨bound, ?_⟩
  rcases Nat.eq_zero_or_pos tree.depth with none | some
  · exact .inl none
  · obtain ⟨statement, member, value, found, deep⟩ := lt_depth_iff.mp (Nat.sub_one_lt_of_lt some)
    have upper := bound statement member value found
    exact .inr ⟨statement, member, value, found, by omega⟩

end Module

end LetLang

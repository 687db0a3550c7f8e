import LetLang.Proofs.Number.Comparison
import LetLang.Proofs.Parse.Parallel
import LetLang.Proofs.Tree.Depth

/-! Chains of assignments. Copies, comparisons, depths and parsed expressions are made by loops
along a chain; each of them comes to what follows from the nesting of the tree.
-/

namespace LetLang

/-- Structural equality of atoms. -/
inductive Atom.Same : Atom → Atom → Prop
  | identifier {left right : Identifier} (location : left.location = right.location)
    (text : left.text = right.text)
    : Atom.Same (.identifier left) (.identifier right)
  | number (location : Location) {left right : Binary64} (value : left.SameValue right)
    : Atom.Same (.number location left) (.number location right)
  | boolean (location : Location) (value : Bool)
    : Atom.Same (.boolean location value) (.boolean location value)

namespace Expr

/-- Structural equality of expressions, by recursion on both of them. -/
inductive Same : Expr → Expr → Prop
  | atom {left right : Atom} (leaf : left.Same right) : Same (atom left) (atom right)
  | assignment {left right : Link} {leftValue rightValue : Expr}
    (location : left.location = right.location) (target : left.target = right.target)
    (value : Same leftValue rightValue)
    : Same (assignment left leftValue) (assignment right rightValue)

/-- The expression is a chain of the given assignments, outermost first, and ends with the given
atom.
-/
inductive IsChain : Expr → List Link → Atom → Prop
  | atom (leaf : Atom) : IsChain (atom leaf) [] leaf
  | assignment (link : Link) {value : Expr} {links : List Link} {leaf : Atom}
    (inner : IsChain value links leaf)
    : IsChain (assignment link value) (link :: links) leaf

end Expr

/-- The assignment to a target starts where the target does. -/
def Link.ofTarget (target : Identifier) : Link :=
  ⟨target.location, target⟩

namespace Atom

variable {left middle right : Atom}

theorem equal_eq_true_iff : left.equal right = true ↔ left.Same right := by
  constructor
  · intro equal
    cases left <;> cases right <;>
      simp only [Atom.equal, Bool.and_eq_true, beq_iff_eq, Bool.false_eq_true] at equal
    · subst equal
      exact .identifier rfl rfl
    · obtain ⟨rfl, value⟩ := equal
      exact .number _ (Binary64.equal_eq_true_iff.mp value)
    · obtain ⟨rfl, rfl⟩ := equal
      exact .boolean _ _
  · intro same
    cases same with
    | @identifier left right location text =>
        cases left
        cases right
        simp_all [Atom.equal]
    | number location value => simp [Atom.equal, Binary64.equal_eq_true_iff.mpr value]
    | boolean location value => simp [Atom.equal]

theorem Same.symm (same : left.Same right) : right.Same left := by
  cases same with
  | identifier location text => exact .identifier location.symm text.symm
  | number location value => exact .number location value.symm
  | boolean location value => exact .boolean location value

theorem Same.trans (first : left.Same middle) (second : middle.Same right) : left.Same right := by
  cases first with
  | identifier location text =>
      cases second with
      | identifier alsoLocation alsoText =>
          exact .identifier (location.trans alsoLocation) (text.trans alsoText)
  | number location value =>
      cases second with
      | number _ alsoValue => exact .number location (value.trans alsoValue)
  | boolean location value => exact second

/-- An atom equals itself unless it is a NaN. -/
theorem same_self_iff
    : left.Same left
      ↔ ∀ location number, left = .number location number → number.isNaN = false := by
  constructor
  · rintro same location number rfl
    cases same with
    | number _ value => exact Binary64.sameValue_self_iff.mp value
  · intro number
    cases left with
    | identifier name => exact .identifier rfl rfl
    | number location value =>
        exact .number location (Binary64.sameValue_self_iff.mpr (number location value rfl))
    | boolean location value => exact .boolean location value

end Atom

namespace Expr

variable {expr left middle right : Expr}

-----------------------------------------------------------------------------------------
-- Taking chains apart
-----------------------------------------------------------------------------------------

theorem isChain_links (expr : Expr) : expr.IsChain expr.links expr.leaf := by
  induction expr with
  | atom leaf => exact .atom leaf
  | assignment link value ih =>
      rw [links_assignment, leaf_assignment]
      exact .assignment link ih

theorem IsChain.eq_ofChain {links : List Link} {leaf : Atom} (chain : expr.IsChain links leaf)
    : expr = ofChain links leaf := by
  induction chain with
  | atom leaf => rfl
  | assignment link inner ih => rw [ofChain_cons, ← ih]

theorem isChain_ofChain (links : List Link) (leaf : Atom)
    : (ofChain links leaf).IsChain links leaf := by
  induction links with
  | nil => exact .atom leaf
  | cons link inner ih =>
      rw [ofChain_cons]
      exact .assignment link ih

-----------------------------------------------------------------------------------------
-- Comparison
-----------------------------------------------------------------------------------------

theorem Same.symm (same : left.Same right) : right.Same left := by
  induction same with
  | atom leaf => exact .atom leaf.symm
  | assignment location target value ih => exact .assignment location.symm target.symm ih

theorem Same.trans (first : left.Same middle) (second : middle.Same right) : left.Same right := by
  induction first generalizing right with
  | atom leaf =>
      cases second with
      | atom alsoLeaf => exact .atom (leaf.trans alsoLeaf)
  | assignment location target value ih =>
      cases second with
      | assignment alsoLocation alsoTarget alsoValue =>
          exact .assignment (location.trans alsoLocation) (target.trans alsoTarget) (ih alsoValue)

@[simp]
theorem same_atom_iff {left right : Atom} : (atom left).Same (atom right) ↔ left.Same right := by
  constructor
  · intro same
    cases same with
    | atom leaf => exact leaf
  · exact .atom

@[simp]
theorem same_assignment_iff {left right : Link} {leftValue rightValue : Expr}
    : (assignment left leftValue).Same (assignment right rightValue)
      ↔ left = right ∧ leftValue.Same rightValue := by
  constructor
  · intro same
    cases same with
    | assignment location target value =>
        cases left
        cases right
        exact ⟨congrArg₂ Link.mk location target, value⟩
  · rintro ⟨rfl, value⟩
    exact .assignment rfl rfl value

@[simp]
theorem not_same_atom_assignment {leaf : Atom} {link : Link} {value : Expr}
    : ¬(atom leaf).Same (assignment link value) :=
  nofun

@[simp]
theorem not_same_assignment_atom {link : Link} {value : Expr} {leaf : Atom}
    : ¬(assignment link value).Same (atom leaf) :=
  nofun

/-- Equal expressions have the same assignments in the same order, and equal leaves. -/
theorem same_iff_links
    : left.Same right ↔ left.links = right.links ∧ left.leaf.Same right.leaf := by
  induction left generalizing right with
  | atom leaf => cases right <;> simp
  | assignment link value ih =>
      cases right with
      | atom leaf => simp
      | assignment other otherValue => simp [ih, and_assoc]

/-- The comparison of two chains side by side is structural equality. -/
theorem equal_eq_true_iff : left.equal right = true ↔ left.Same right := by
  induction left generalizing right with
  | atom leaf => cases right <;> simp [Atom.equal_eq_true_iff]
  | assignment link value ih =>
      cases right with
      | atom leaf => simp
      | assignment other otherValue => simp [ih]

theorem equal_comm (left right : Expr) : left.equal right = right.equal left := by
  rw [Bool.eq_iff_iff, equal_eq_true_iff, equal_eq_true_iff]
  exact ⟨Same.symm, Same.symm⟩

theorem equal_trans (first : left.equal middle = true) (second : middle.equal right = true)
    : left.equal right = true :=
  equal_eq_true_iff.mpr ((equal_eq_true_iff.mp first).trans (equal_eq_true_iff.mp second))

end Expr

-----------------------------------------------------------------------------------------
-- Parsed chains
-----------------------------------------------------------------------------------------

namespace Parse

open LetLang.Parse.Parser

/-- From a cursor on, the loop that reads an expression collects the given targets, outermost first,
and then reads its last atom. A name is a target if an equals sign follows it.
-/
inductive Collects (visible : Visibility) : Cursor → List Identifier → Atom → Cursor → Prop
  | literal {cursor next leaf} (read : atom cursor = .done leaf next)
    (plain : ∀ name, leaf ≠ .identifier name)
    : Collects visible cursor [] leaf next
  | name {cursor next name} (read : atom cursor = .done (.identifier name) next)
    (seen : visible name.text = .ok true) (ends : next.current.kind ≠ .equals)
    : Collects visible cursor [] (.identifier name) next
  | target {cursor middle next target targets leaf}
    (read : atom cursor = .done (.identifier target) middle)
    (seen : visible target.text = .ok true) (equals : middle.current.kind = .equals)
    (rest : Collects visible middle.advance targets leaf next)
    : Collects visible cursor (target :: targets) leaf next

variable {visible : Visibility} {cursor next : Cursor} {value : Expr}

theorem collects_of_expressionFrom {outer : List Link}
    (done : expressionFrom visible outer cursor = .done value next)
    : ∃ targets leaf,
        Collects visible cursor targets leaf next
        ∧ value = (Expr.ofChain (targets.map Link.ofTarget) leaf).wrap outer := by
  -- Along the loop, what is collected moves from the targets to come to the outer assignments.
  fun_induction expressionFrom visible outer cursor with
  | case1 outer cursor found middle read seen equals ih =>
      obtain ⟨targets, leaf, collects, rfl⟩ := ih done
      refine ⟨found :: targets, leaf, .target read seen equals collects, ?_⟩
      rw [List.map_cons, Expr.ofChain_cons]
      rfl
  | case2 outer cursor found middle read seen ends =>
      cases done
      exact ⟨[], _, .name read seen ends, rfl⟩
  | case5 outer cursor leaf middle plain read =>
      cases done
      exact ⟨[], leaf, .literal read plain, rfl⟩
  | case3 | case4 | case6 | case7 => cases done

theorem expressionFrom_of_collects {targets : List Identifier} {leaf : Atom}
    (collects : Collects visible cursor targets leaf next) (outer : List Link)
    : expressionFrom visible outer cursor
      = .done ((Expr.ofChain (targets.map Link.ofTarget) leaf).wrap outer) next := by
  induction collects generalizing outer with
  | @literal cursor next leaf read plain =>
      rw [expressionFrom_apply, read]
      cases leaf with
      | identifier name => exact absurd rfl (plain name)
      | number | boolean => rfl
  | name read seen ends =>
      rw [expressionFrom_apply, read]
      simp only [seen, if_neg ends]
      rfl
  | target read seen equals _ ih =>
      rw [expressionFrom_apply, read]
      simp only [seen, if_pos equals]
      rw [List.map_cons, Expr.ofChain_cons]
      exact ih _

/-- An expression that is read is the chain of the collected targets and the last atom. -/
theorem expression_done_iff_collects
    : expression visible cursor = .done value next
      ↔ ∃ targets leaf,
          Collects visible cursor targets leaf next
          ∧ value.IsChain (targets.map Link.ofTarget) leaf := by
  constructor
  · intro done
    obtain ⟨targets, leaf, collects, rfl⟩ := collects_of_expressionFrom done
    exact ⟨targets, leaf, collects, Expr.isChain_ofChain _ leaf⟩
  · rintro ⟨targets, leaf, collects, chain⟩
    rw [chain.eq_ofChain]
    exact expressionFrom_of_collects collects []

end Parse

namespace Expr

/-- The loops along chains of assignments follow the nesting of the tree. The listed assignments are
those of the chain, a copy is the expression itself, and the depth counts the assignments.
Comparison is structural equality: symmetric, transitive, and true of a copy unless the chain ends
with a NaN. An expression that is parsed has the collected targets as its assignments, outermost
first, and the last atom as its leaf.
-/
theorem loops_follow_nesting (left right : Expr)
    : left.IsChain left.links left.leaf
      ∧ left.rebuild = left
      ∧ left.depth = left.linkCount
      ∧ (left.equal right = true ↔ left.Same right)
      ∧ (left.equal right = true ↔ left.links = right.links ∧ left.leaf.Same right.leaf)
      ∧ left.equal right = right.equal left
      ∧ (∀ other, left.equal right = true → right.equal other = true → left.equal other = true)
      ∧ (left.rebuild.equal left = true
        ↔ ∀ location number, left.leaf = .number location number → number.isNaN = false)
      ∧ ∀ visible cursor next,
          Parse.expression visible cursor = .done left next
          ↔ ∃ targets leaf,
              Parse.Collects visible cursor targets leaf next
              ∧ left.IsChain (targets.map Link.ofTarget) leaf := by
  refine ⟨left.isChain_links, left.rebuild_eq_self, left.depth_eq_linkCount, equal_eq_true_iff,
    equal_eq_true_iff.trans same_iff_links, equal_comm left right,
    fun other first second => equal_trans first second, ?_,
    fun visible cursor next => Parse.expression_done_iff_collects⟩
  rw [rebuild_eq_self, equal_eq_true_iff, same_iff_links, Atom.same_self_iff]
  exact and_iff_right rfl

/-- Chains that end with the two zeros are equal, and one that ends with a NaN is not equal to its
copy.
-/
theorem loops_follow_nesting_zeros
    : let chain (bits : UInt64) : Expr :=
        assignment ⟨0, ⟨0, "a"⟩⟩ (assignment ⟨4, ⟨4, "b"⟩⟩ (atom (.number 8 ⟨bits⟩)))
      (chain 0).equal (chain 0x8000000000000000) = true
      ∧ (chain 0x8000000000000000).equal (chain 0) = true
      ∧ chain 0 ≠ chain 0x8000000000000000
      ∧ (chain 0x7ff8000000000000).rebuild = chain 0x7ff8000000000000
      ∧ ¬(chain 0x7ff8000000000000).rebuild.equal (chain 0x7ff8000000000000) = true := by
  intro chain
  have zeros : Binary64.SameValue ⟨0⟩ ⟨0x8000000000000000⟩ := by
    refine .finite (by decide) (by decide) ?_
    exact (Binary64.value_eq_zero_iff.mpr (by decide)).trans
      (Binary64.value_eq_zero_iff.mpr (by decide)).symm
  obtain ⟨_, _, _, _, equal_iff, symmetric, _⟩ :=
    loops_follow_nesting (chain 0) (chain 0x8000000000000000)
  have equal := equal_iff.mpr ⟨rfl, .number 8 zeros⟩
  obtain ⟨_, copy, _, _, _, _, _, copy_iff, _⟩ :=
    loops_follow_nesting (chain 0x7ff8000000000000) (chain 0)
  refine ⟨equal, symmetric.symm.trans equal, by decide, copy, fun equalsCopy => ?_⟩
  have number := copy_iff.mp equalsCopy 8 ⟨0x7ff8000000000000⟩ rfl
  exact absurd number (by decide)

end Expr

end LetLang

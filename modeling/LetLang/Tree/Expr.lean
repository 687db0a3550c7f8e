import LetLang.Number.Binary64
import LetLang.Text.Span

/-! Expressions: an atom, or an assignment whose value is again an expression. A chain of
assignments can be long, so the functions here go along it in a loop; next to each stands the
equation that follows the nesting of the tree.
-/

namespace LetLang

/-- A name as written in the source. -/
structure Identifier where
  location : Location
  text : String
  deriving DecidableEq

/-- An expression without parts. -/
inductive Atom where
  | identifier (name : Identifier)
  | number (location : Location) (value : Binary64)
  | boolean (location : Location) (value : Bool)
  deriving DecidableEq

namespace Atom

/-- Where an atom starts. -/
def location : Atom → Location
  | identifier name => name.location
  | number location _ => location
  | boolean location _ => location

/-- Equality of atoms, with numbers compared by value. -/
def equal : Atom → Atom → Bool
  | identifier left, identifier right => left == right
  | number leftLocation left, number rightLocation right =>
      leftLocation == rightLocation && left.equal right
  | boolean leftLocation left, boolean rightLocation right =>
      leftLocation == rightLocation && left == right
  | _, _ => false

end Atom

/-- One assignment of a chain, without its value. -/
structure Link where
  location : Location
  target : Identifier
  deriving DecidableEq

/-- An expression. Assignments nest to the right. -/
inductive Expr where
  | atom (leaf : Atom)
  | assignment (link : Link) (value : Expr)
  deriving DecidableEq

namespace Expr

/-- Where an expression starts. -/
def location : Expr → Location
  | atom leaf => leaf.location
  | assignment link _ => link.location

/-- The name that an expression consists of. -/
def identifier? : Expr → Option Identifier
  | atom (.identifier name) => some name
  | _ => none

/-- Counts the assignments of an expression on top of `count`. -/
def depthFrom (count : Nat) : Expr → Nat
  | atom _ => count
  | assignment _ value => depthFrom (count + 1) value

/-- The number of assignments of an expression. -/
def depth (expr : Expr) : Nat :=
  depthFrom 0 expr

/-- Collects the assignments of an expression in front of `done`, last one first, and its last
value.
-/
def chainFrom (done : List Link) : Expr → List Link × Atom
  | atom leaf => (done, leaf)
  | assignment link value => chainFrom (link :: done) value

/-- The assignments of an expression, outermost first. -/
def links (expr : Expr) : List Link :=
  (chainFrom [] expr).1.reverse

/-- The value that a chain of assignments ends with. -/
def leaf (expr : Expr) : Atom :=
  (chainFrom [] expr).2

/-- Puts assignments around an expression, the first one innermost. -/
def wrap (value : Expr) : List Link → Expr
  | [] => value
  | link :: outer => wrap (assignment link value) outer

/-- The expression with the given assignments, outermost first, and last value. -/
def ofChain (links : List Link) (leaf : Atom) : Expr :=
  wrap (atom leaf) links.reverse

/-- Takes an expression apart and puts it together again. The outermost assignment is put around
the others last.
-/
def rebuild : Expr → Expr
  | atom leaf => atom leaf
  | assignment link value => assignment link (ofChain value.links value.leaf)

/-- Equality of expressions that are not both assignments. -/
def equalEnds : Expr → Expr → Bool
  | atom left, atom right => left.equal right
  | _, _ => false

/-- Compares two chains of assignments link by link, up to the first difference or to where one of
them ends.
-/
def equalChains (left right : Link) (leftValue rightValue : Expr) : Bool :=
  if left.location ≠ right.location ∨ left.target ≠ right.target then
    false
  else
    match leftValue, rightValue with
    | assignment left leftValue, assignment right rightValue =>
        equalChains left right leftValue rightValue
    | leftEnd, rightEnd => equalEnds leftEnd rightEnd

/-- Equality of expressions, with numbers compared by value. -/
def equal : Expr → Expr → Bool
  | assignment left leftValue, assignment right rightValue =>
      equalChains left right leftValue rightValue
  | leftEnd, rightEnd => equalEnds leftEnd rightEnd

theorem depthFrom_eq_add (count : Nat) (expr : Expr)
    : expr.depthFrom count = count + expr.depth := by
  induction expr generalizing count with
  | atom leaf => rfl
  | assignment link value ih =>
      change value.depthFrom (count + 1) = count + value.depthFrom (0 + 1)
      rw [ih (count + 1), ih (0 + 1)]
      omega

@[simp]
theorem depth_atom (leaf : Atom) : (atom leaf).depth = 0 := rfl

@[simp]
theorem depth_assignment (link : Link) (value : Expr)
    : (assignment link value).depth = value.depth + 1 := by
  rw [depth, depthFrom, depthFrom_eq_add]
  omega

theorem chainFrom_eq_append (done : List Link) (expr : Expr)
    : expr.chainFrom done = (expr.links.reverse ++ done, expr.leaf) := by
  induction expr generalizing done with
  | atom leaf => rfl
  | assignment link value ih =>
      change value.chainFrom (link :: done)
        = ((value.chainFrom [link]).1.reverse.reverse ++ done, (value.chainFrom [link]).2)
      rw [ih (link :: done), ih [link]]
      simp

@[simp]
theorem links_atom (leaf : Atom) : (atom leaf).links = [] := rfl

@[simp]
theorem links_assignment (link : Link) (value : Expr)
    : (assignment link value).links = link :: value.links := by
  rw [links, chainFrom, chainFrom_eq_append]
  simp

@[simp]
theorem leaf_atom (leaf : Atom) : (atom leaf).leaf = leaf := rfl

@[simp]
theorem leaf_assignment (link : Link) (value : Expr)
    : (assignment link value).leaf = value.leaf := by
  rw [leaf, chainFrom, chainFrom_eq_append]

theorem wrap_append (value : Expr) (inner outer : List Link)
    : value.wrap (inner ++ outer) = (value.wrap inner).wrap outer := by
  induction inner generalizing value with
  | nil => rfl
  | cons link inner ih => exact ih _

@[simp]
theorem ofChain_nil (leaf : Atom) : ofChain [] leaf = atom leaf := rfl

@[simp]
theorem ofChain_cons (link : Link) (inner : List Link) (leaf : Atom)
    : ofChain (link :: inner) leaf = assignment link (ofChain inner leaf) := by
  simp only [ofChain, List.reverse_cons, wrap_append, wrap]

/-- Nothing is lost when an expression is taken apart. -/
@[simp]
theorem ofChain_links_leaf (expr : Expr) : ofChain expr.links expr.leaf = expr := by
  induction expr with
  | atom leaf => rfl
  | assignment link value ih => simp [ih]

/-- A copy is the expression itself. -/
@[simp]
theorem rebuild_eq_self (expr : Expr) : expr.rebuild = expr := by
  cases expr with
  | atom leaf => rfl
  | assignment link value => rw [rebuild, ofChain_links_leaf]

theorem equalChains_eq (left right : Link) (leftValue rightValue : Expr)
    : equalChains left right leftValue rightValue
      = (left == right && leftValue.equal rightValue) := by
  by_cases same : left = right
  · subst same
    rw [equalChains.eq_def, if_neg (by simp), beq_self_eq_true, Bool.true_and]
    cases leftValue <;> cases rightValue <;> rfl
  · have differs : left.location ≠ right.location ∨ left.target ≠ right.target := by
      cases left
      cases right
      simpa [Decidable.or_iff_not_imp_left] using same
    rw [equalChains.eq_def, if_pos differs, beq_eq_false_iff_ne.mpr same, Bool.false_and]

@[simp]
theorem equal_atom (left right : Atom) : (atom left).equal (atom right) = left.equal right := rfl

@[simp]
theorem equal_assignment (left right : Link) (leftValue rightValue : Expr)
    : (assignment left leftValue).equal (assignment right rightValue)
      = (left == right && leftValue.equal rightValue) :=
  equalChains_eq left right leftValue rightValue

@[simp]
theorem equal_atom_assignment (leaf : Atom) (link : Link) (value : Expr)
    : (atom leaf).equal (assignment link value) = false := rfl

@[simp]
theorem equal_assignment_atom (link : Link) (value : Expr) (leaf : Atom)
    : (assignment link value).equal (atom leaf) = false := rfl

end Expr

end LetLang

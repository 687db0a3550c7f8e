import LetLang.Fault
import LetLang.Scope.Table

/-! Scopes. Each scope has a table of its own and refers to the enclosing scope by its index.
A name is looked up along the chain of enclosing scopes; the nearest scope that binds it wins.
Nothing stops a parent index from naming a scope that does not exist: a walk that reaches such
an index is a fault.
-/

namespace LetLang

/-- A scope: its own bindings and the index of the enclosing scope. -/
structure Scope where
  bindings : BindingTable
  parent : Option Nat
  deriving DecidableEq

/-- All scopes of a session, by index. -/
structure ScopeTree where
  scopes : Array Scope
  deriving DecidableEq

namespace ScopeTree

/-- The index of the outermost scope. -/
def root : Nat := 0

/-- The tree of one scope without bindings. -/
def new : ScopeTree :=
  ⟨#[⟨.empty, none⟩]⟩

/-- The number of scopes. -/
def size (tree : ScopeTree) : Nat :=
  tree.scopes.size

/-- The scope with the given index. -/
def get (tree : ScopeTree) (scope : Nat) : Except Fault Scope :=
  match tree.scopes[scope]? with
  | some found => .ok found
  | none => .error (.indexOutOfRange tree.size scope)

/-- The enclosing scope of a scope. -/
def parent (tree : ScopeTree) (scope : Nat) : Except Fault (Option Nat) :=
  return (← tree.get scope).parent

/-- Opens a scope inside another one. Gives the tree and the index of the new scope. Indices have
no bound here. Indices of 32 bits are the same up to 2 ^ 32 scopes; the next scope would get the
index of the outermost one.
-/
def push (tree : ScopeTree) (parent : Nat) : ScopeTree × Nat :=
  (⟨tree.scopes.push ⟨.empty, some parent⟩⟩, tree.size)

/-- Binds a name in the table of a scope. -/
def declare (tree : ScopeTree) (scope : Nat) (name : String) (declaration : Declaration)
    : Except Fault ScopeTree := do
  let found ← tree.get scope
  return ⟨tree.scopes.setIfInBounds scope
    { found with bindings := found.bindings.insert name declaration }⟩

/-- A walk outwards along the parents: the scopes passed, with their indices, and the fault
that ended the walk if it did not end at a scope without parent.
-/
structure Walk where
  passed : List (Nat × Scope)
  fault : Option Fault
  deriving DecidableEq

/-- Walks outwards from a scope for at most `steps` scopes. -/
def walkFor (tree : ScopeTree) (scope : Nat) : (steps : Nat) → Walk
  | 0 => ⟨[], some .endlessWalk⟩
  | steps + 1 =>
      match tree.scopes[scope]? with
      | none => ⟨[], some (.indexOutOfRange tree.size scope)⟩
      | some found =>
          match found.parent with
          | none => ⟨[(scope, found)], none⟩
          | some parent =>
              let outer := tree.walkFor parent steps
              ⟨(scope, found) :: outer.passed, outer.fault⟩

/-- Walks outwards from a scope. A walk that passes more scopes than there are has passed one
of them twice and never ends.
-/
def walk (tree : ScopeTree) (scope : Nat) : Walk :=
  tree.walkFor scope (tree.size + 1)

/-- The indices of a scope and of all scopes around it, innermost first. -/
def ancestors (tree : ScopeTree) (scope : Nat) : Except Fault (List Nat) :=
  match (tree.walk scope).fault with
  | none => .ok ((tree.walk scope).passed.map Prod.fst)
  | some fault => .error fault

/-- The nearest binding of a name, with the index of the scope that holds it. The walk only
goes on as long as the name has not been found.
-/
def resolve (tree : ScopeTree) (scope : Nat) (name : String)
    : Except Fault (Option (Nat × Declaration)) :=
  let binding? := fun (index, found) =>
    (BindingTable.get? (Scope.bindings found) name).map fun declaration => (index, declaration)
  -- A binding that is found hides the fault behind it.
  match (tree.walk scope).passed.findSome? binding?, (tree.walk scope).fault with
  | some found, _ => .ok (some found)
  | none, none => .ok none
  | none, some fault => .error fault

/-- The nearest declaration of a name. -/
def lookup (tree : ScopeTree) (scope : Nat) (name : String)
    : Except Fault (Option Declaration) :=
  return (← tree.resolve scope name).map Prod.snd

/-- Whether a name is visible from a scope. -/
def isDeclared (tree : ScopeTree) (scope : Nat) (name : String) : Except Fault Bool :=
  return (← tree.lookup scope name).isSome

end ScopeTree

end LetLang

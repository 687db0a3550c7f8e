import LetLang.Tree.Expr

/-! Declarations, statements and modules. Bindings and type aliases share one name space. -/

namespace LetLang

/-- A statement that gives something a name. -/
inductive Declaration where
  | binding (location : Location) (name : Identifier) (ascription : Option Identifier)
      (initializer : Expr)
  | typeAlias (location : Location) (name aliased : Identifier)
  deriving DecidableEq

namespace Declaration

/-- Where a declaration starts. -/
def location : Declaration → Location
  | binding location _ _ _ => location
  | typeAlias location _ _ => location

/-- The name that is declared. -/
def name : Declaration → Identifier
  | binding _ name _ _ => name
  | typeAlias _ name _ => name

/-- Whether a declaration names a type. -/
def isTypeAlias : Declaration → Bool
  | binding .. => false
  | typeAlias .. => true

/-- A declaration with its initializer taken apart and put together again. -/
def rebuild : Declaration → Declaration
  | binding location name ascription initializer =>
      binding location name ascription initializer.rebuild
  | other => other

/-- Equality of declarations, with numbers compared by value. -/
def equal : Declaration → Declaration → Bool
  | binding leftLocation leftName leftAscription left,
    binding rightLocation rightName rightAscription right =>
      leftLocation == rightLocation && leftName == rightName
        && leftAscription == rightAscription && left.equal right
  | typeAlias leftLocation leftName left, typeAlias rightLocation rightName right =>
      leftLocation == rightLocation && leftName == rightName && left == right
  | _, _ => false

end Declaration

/-- A statement of a module. -/
inductive Statement where
  | expression (location : Location) (value : Expr)
  | declaration (declared : Declaration)
  deriving DecidableEq

namespace Statement

/-- Where a statement starts. -/
def location : Statement → Location
  | expression location _ => location
  | declaration declared => declared.location

/-- The declaration that a statement is. -/
def declaration? : Statement → Option Declaration
  | expression .. => none
  | declaration declared => some declared

/-- The expression that a statement is. -/
def expression? : Statement → Option Expr
  | expression _ value => some value
  | declaration _ => none

/-- The expression in a statement: the statement itself or the initializer of a binding. -/
def value? : Statement → Option Expr
  | expression _ value => some value
  | declaration (.binding _ _ _ initializer) => some initializer
  | declaration (.typeAlias ..) => none

/-- The number of assignments in the expression of a statement. -/
def depth? (statement : Statement) : Option Nat :=
  statement.value?.map Expr.depth

/-- A statement with its expression taken apart and put together again. -/
def rebuild : Statement → Statement
  | expression location value => expression location value.rebuild
  | declaration declared => declaration declared.rebuild

/-- Equality of statements, with numbers compared by value. -/
def equal : Statement → Statement → Bool
  | expression leftLocation left, expression rightLocation right =>
      leftLocation == rightLocation && left.equal right
  | declaration left, declaration right => left.equal right
  | _, _ => false

end Statement

/-- The statements of one source text, in order. -/
structure Module where
  statements : List Statement
  deriving DecidableEq

namespace Module

/-- The declarations of a module, in order. -/
def declarations (tree : Module) : List Declaration :=
  tree.statements.filterMap Statement.declaration?

/-- The first declaration of a name. -/
def declaration? (tree : Module) (name : String) : Option Declaration :=
  tree.declarations.find? fun declaration => declaration.name.text == name

/-- The greatest number of assignments in one statement. -/
def depth (tree : Module) : Nat :=
  tree.statements.foldl (fun depth statement => max depth (statement.depth?.getD 0)) 0

/-- A module with all its expressions taken apart and put together again. -/
def rebuild (tree : Module) : Module :=
  ⟨tree.statements.map Statement.rebuild⟩

/-- Equality of modules, with numbers compared by value. -/
def equal (left right : Module) : Bool :=
  left.statements.isEqv right.statements Statement.equal

end Module

end LetLang

import LetLang.Parse.Reports
import LetLang.Tree.Module

/-! Moving everything that has a place in a text: `move` says where each location goes. Only
places change, so what does not look at them is the same before and after.
-/

namespace LetLang

variable (move : Location → Location)

/-- A span that starts where its start has gone. -/
def Span.relocate (span : Span) : Span :=
  ⟨move span.start, span.length⟩

def Token.relocate (token : Token) : Token :=
  { token with span := token.span.relocate move }

def Identifier.relocate (name : Identifier) : Identifier :=
  { name with location := move name.location }

def Atom.relocate : Atom → Atom
  | identifier name => identifier (name.relocate move)
  | number location value => number (move location) value
  | boolean location value => boolean (move location) value

def Link.relocate (link : Link) : Link :=
  ⟨move link.location, link.target.relocate move⟩

def Expr.relocate : Expr → Expr
  | atom leaf => atom (leaf.relocate move)
  | assignment link value => assignment (link.relocate move) value.relocate

def Declaration.relocate : Declaration → Declaration
  | binding location name ascription initializer =>
      binding (move location) (name.relocate move)
        (ascription.map (Identifier.relocate move)) (initializer.relocate move)
  | typeAlias location name aliased =>
      typeAlias (move location) (name.relocate move) (aliased.relocate move)

def Statement.relocate : Statement → Statement
  | expression location value => expression (move location) (value.relocate move)
  | declaration declared => declaration (declared.relocate move)

def Module.relocate (tree : Module) : Module :=
  ⟨tree.statements.map (Statement.relocate move)⟩

def ParseError.relocate : ParseError → ParseError
  | unexpectedToken span expected found text =>
      unexpectedToken (span.relocate move) expected found text
  | invalidNumber span text => invalidNumber (span.relocate move) text
  | redeclared span name => redeclared (span.relocate move) name
  | undeclared span name isType => undeclared (span.relocate move) name isType

def Diagnostic.relocate (diagnostic : Diagnostic) : Diagnostic :=
  { diagnostic with span := diagnostic.span.map (Span.relocate move) }

-----------------------------------------------------------------------------------------
-- What has not moved
-----------------------------------------------------------------------------------------

@[simp]
theorem Token.relocate_kind (token : Token) : (token.relocate move).kind = token.kind := rfl

@[simp]
theorem Token.relocate_text (token : Token) : (token.relocate move).text = token.text := rfl

@[simp]
theorem Token.relocate_start (token : Token)
    : (token.relocate move).start = move token.start := rfl

@[simp]
theorem Identifier.relocate_text (name : Identifier) : (name.relocate move).text = name.text := rfl

@[simp]
theorem Declaration.relocate_name_text (declared : Declaration)
    : (declared.relocate move).name.text = declared.name.text := by
  cases declared <;> rfl

theorem Statement.relocate_declaration? (statement : Statement)
    : (statement.relocate move).declaration?
      = statement.declaration?.map (Declaration.relocate move) := by
  cases statement <;> rfl

theorem Expr.relocate_wrap (value : Expr) (links : List Link)
    : (value.wrap links).relocate move
      = (value.relocate move).wrap (links.map (Link.relocate move)) := by
  induction links generalizing value with
  | nil => rfl
  | cons link outer ih => exact ih _

/-- The message about an error does not depend on its place. -/
theorem ParseError.relocate_diagnostic (error : ParseError)
    : (error.relocate move).diagnostic = error.diagnostic.relocate move := by
  cases error with
  | unexpectedToken span expected => cases expected <;> rfl
  | invalidNumber | redeclared | undeclared => rfl

theorem Parse.Reports.diagnose_relocate (file : Option String) (error : ParseError)
    : diagnose file (error.relocate move) = (diagnose file error).relocate move := by
  cases file with
  | none => exact ParseError.relocate_diagnostic move error
  | some path =>
      simp only [diagnose, ParseError.relocate_diagnostic]
      rfl

-----------------------------------------------------------------------------------------
-- Nothing moves
-----------------------------------------------------------------------------------------

@[simp]
theorem Token.relocate_id (token : Token) : token.relocate id = token := rfl

@[simp]
theorem Identifier.relocate_id (name : Identifier) : name.relocate id = name := rfl

@[simp]
theorem Expr.relocate_id (value : Expr) : value.relocate id = value := by
  induction value with
  | atom leaf => cases leaf <;> rfl
  | assignment link value ih => rw [relocate, ih]; rfl

@[simp]
theorem Declaration.relocate_id (declared : Declaration) : declared.relocate id = declared := by
  cases declared with
  | binding location name ascription initializer => cases ascription <;> simp [relocate]
  | typeAlias => rfl

@[simp]
theorem Statement.relocate_id (statement : Statement) : statement.relocate id = statement := by
  cases statement <;> simp [relocate]

@[simp]
theorem ParseError.relocate_id (error : ParseError) : error.relocate id = error := by
  cases error <;> rfl

end LetLang

import LetLang.Number.Layout
import LetLang.Tree.Module

/-! Modules as source text: one statement to a line, single blanks around equals signs and
behind colons.
-/

namespace LetLang

/-- How a module is printed. -/
structure PrintOptions where
  /-- Leave out the types of bindings. -/
  stripTypes : Bool
  newLine : String
  /-- End the text with a line break. -/
  trailingNewLine : Bool
  deriving DecidableEq

/-- Everything is printed, and each line ends with a line feed. -/
def PrintOptions.default : PrintOptions :=
  ⟨false, "\n", true⟩

/-- The source text of an atom. -/
def Atom.print : Atom → String
  | identifier name => name.text
  | number _ value => value.sourceText
  | boolean _ value => if value then "true" else "false"

/-- Adds the source text of an expression to `out`. -/
def Expr.printOnto (out : String) : Expr → String
  | atom leaf => out ++ leaf.print
  | assignment link value => value.printOnto (out ++ link.target.text ++ " = ")

theorem Expr.printOnto_eq_append (out : String) (expr : Expr)
    : expr.printOnto out = out ++ expr.printOnto "" := by
  induction expr generalizing out with
  | atom leaf => simp [printOnto]
  | assignment link value ih =>
      rw [printOnto, printOnto, ih, ih ("" ++ _ ++ _)]
      simp [String.append_assoc]

/-- The source text of the type of a binding. -/
def printAscription (options : PrintOptions) : Option Identifier → String
  | none => ""
  | some name => if options.stripTypes then "" else ": " ++ name.text

/-- Adds the source text of a declaration, without its semicolon, to `out`. -/
def Declaration.printOnto (options : PrintOptions) (out : String) : Declaration → String
  | binding _ name ascription initializer =>
      initializer.printOnto
        (out ++ "let " ++ name.text ++ printAscription options ascription ++ " = ")
  | typeAlias _ name aliased => out ++ "type " ++ name.text ++ " = " ++ aliased.text

/-- Adds the source text of a statement to `out`. -/
def Statement.printOnto (options : PrintOptions) (out : String) : Statement → String
  | expression _ value => value.printOnto out ++ ";"
  | declaration declared => declared.printOnto options out ++ ";"

namespace Module

/-- Adds the source texts of statements, each after a line break, to `out`. -/
def printRest (options : PrintOptions) (out : String) : List Statement → String
  | [] => out
  | statement :: rest =>
      printRest options (statement.printOnto options (out ++ options.newLine)) rest

/-- The source text of a module. A module without statements is an empty text. -/
def print (options : PrintOptions) (tree : Module) : String :=
  match tree.statements with
  | [] => ""
  | first :: rest =>
      printRest options (first.printOnto options "") rest
        ++ (if options.trailingNewLine then options.newLine else "")

end Module

end LetLang

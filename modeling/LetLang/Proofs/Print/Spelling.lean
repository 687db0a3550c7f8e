import LetLang.Print
import LetLang.Proofs.Number.Whole
import LetLang.Proofs.Token.Spelling

/-! The tokens of printed modules. Where names and numbers are such as a parser reads, a printed
text has the tokens of its statements, and none of them runs into the next.
-/

namespace LetLang

open LetLang.Token

-----------------------------------------------------------------------------------------
-- What is printed
-----------------------------------------------------------------------------------------

/-- A declaration without the type of its binding. -/
def Declaration.untyped : Declaration → Declaration
  | binding location name _ initializer => binding location name none initializer
  | typeAlias location name aliased => typeAlias location name aliased

/-- A statement without the type of its binding. -/
def Statement.untyped : Statement → Statement
  | expression location value => expression location value
  | declaration declared => declaration declared.untyped

/-- The part of a statement that is printed. -/
def Statement.shown (options : PrintOptions) (statement : Statement) : Statement :=
  if options.stripTypes then statement.untyped else statement

/-- A name that can be read, or a number that was read from digits. -/
def Atom.Printable : Atom → Prop
  | identifier name => IsName name.text
  | number _ value => ∃ whole, value = .ofNat whole ∧ value.isFinite = true
  | boolean .. => True

/-- All names and the number of an expression can be read. -/
def Expr.Printable : Expr → Prop
  | atom leaf => leaf.Printable
  | assignment link value => IsName link.target.text ∧ value.Printable

/-- All names and the number of a declaration can be read. -/
def Declaration.Printable : Declaration → Prop
  | binding _ name ascription initializer =>
      IsName name.text ∧ (∀ ascribed ∈ ascription, IsName ascribed.text) ∧ initializer.Printable
  | typeAlias _ name aliased => IsName name.text ∧ IsName aliased.text

/-- All names and the number of a statement can be read. -/
def Statement.Printable : Statement → Prop
  | expression _ value => value.Printable
  | declaration declared => declared.Printable

/-- The token of an atom. -/
def Atom.spelling : Atom → Kind × String
  | identifier name => (.identifier, name.text)
  | number _ value => (.number, value.sourceText)
  | boolean _ value => (.boolean, if value then "true" else "false")

/-- The tokens of an expression. -/
def Expr.spellings : Expr → List (Kind × String)
  | atom leaf => [leaf.spelling]
  | assignment link value => (.identifier, link.target.text) :: (.equals, "=") :: value.spellings

/-- The tokens of the type of a binding. -/
def ascriptionSpellings : Option Identifier → List (Kind × String)
  | none => []
  | some name => [(.colon, ":"), (.identifier, name.text)]

/-- The tokens of a declaration. -/
def Declaration.spellings : Declaration → List (Kind × String)
  | binding _ name ascription initializer =>
      (.letKeyword, "let") :: (.identifier, name.text)
        :: (ascriptionSpellings ascription ++ (.equals, "=") :: initializer.spellings)
  | typeAlias _ name aliased =>
      [(.typeKeyword, "type"), (.identifier, name.text), (.equals, "="),
        (.identifier, aliased.text)]

/-- The tokens of a statement, without its semicolon. -/
def Statement.spellings : Statement → List (Kind × String)
  | expression _ value => value.spellings
  | declaration declared => declared.spellings

/-- The tokens of statements that each end with a semicolon. -/
def moduleSpellings (statements : List Statement) : List (Kind × String) :=
  statements.flatMap fun statement => statement.spellings ++ [(.semicolon, ";")]

-----------------------------------------------------------------------------------------
-- The tokens of a printed text
-----------------------------------------------------------------------------------------

section

variable {rest : List Char}

theorem spellings_name {name : String} (isName : IsName name) (breaks : Breaks rest)
    : Token.spellings (name.toList ++ rest) = (.identifier, name) :: Token.spellings rest := by
  rw [spellings_word isName.word breaks, isName.free]
  rfl

theorem spellings_space (text : List Char)
    : Token.spellings (' ' :: text) = Token.spellings text :=
  spellings_cons_blank rfl text

theorem breaks_cons {c : Char} (ends : ¬IsWordChar c) : Breaks (c :: rest) := by
  intro other first
  cases first
  exact ends

theorem spellings_spacedEquals (rest : List Char)
    : Token.spellings (" = ".toList ++ rest) = (.equals, "=") :: Token.spellings rest := by
  change Token.spellings (' ' :: '=' :: ' ' :: rest) = _
  rw [spellings_space, spellings_equals, spellings_space]

theorem breaks_spacedEquals : Breaks (" = ".toList ++ rest) :=
  breaks_cons (by decide)

theorem spellings_let (rest : List Char)
    : Token.spellings ("let ".toList ++ rest) = (.letKeyword, "let") :: Token.spellings rest := by
  have isWord : IsWord "let" := isWord_of_all 'l' ['e', 't'] rfl rfl rfl
  change Token.spellings ("let".toList ++ ' ' :: rest) = _
  rw [spellings_word isWord (breaks_cons (by decide)), spellings_space]
  rfl

theorem spellings_type (rest : List Char)
    : Token.spellings ("type ".toList ++ rest) = (.typeKeyword, "type") :: Token.spellings rest := by
  have isWord : IsWord "type" := isWord_of_all 't' ['y', 'p', 'e'] rfl rfl rfl
  change Token.spellings ("type".toList ++ ' ' :: rest) = _
  rw [spellings_word isWord (breaks_cons (by decide)), spellings_space]
  rfl

theorem spellings_atom {leaf : Atom} (printable : leaf.Printable) (breaks : Breaks rest)
    : Token.spellings (leaf.print.toList ++ rest) = leaf.spelling :: Token.spellings rest := by
  cases leaf with
  | identifier name => exact spellings_name printable breaks
  | number location value =>
      obtain ⟨whole, rfl, finite⟩ := printable
      obtain ⟨some, digits, _⟩ := Binary64.sourceText_ofNat finite
      exact spellings_digits some digits breaks
  | boolean location value =>
      cases value with
      | true =>
          have isWord : IsWord "true" := isWord_of_all 't' ['r', 'u', 'e'] rfl rfl rfl
          exact spellings_word isWord breaks
      | false =>
          have isWord : IsWord "false" := isWord_of_all 'f' ['a', 'l', 's', 'e'] rfl rfl rfl
          exact spellings_word isWord breaks

/-- The tokens of a printed expression, by induction along its assignments. -/
theorem spellings_expr {value : Expr} (printable : value.Printable) (breaks : Breaks rest)
    : Token.spellings ((value.printOnto "").toList ++ rest)
      = value.spellings ++ Token.spellings rest := by
  induction value with
  | atom leaf => simpa [Expr.printOnto, Expr.spellings] using spellings_atom printable breaks
  | assignment link value ih =>
      obtain ⟨name, right⟩ := printable
      rw [Expr.printOnto, Expr.printOnto_eq_append, String.empty_append]
      simp only [String.toList_append, List.append_assoc]
      rw [spellings_name name breaks_spacedEquals, spellings_spacedEquals, ih right]
      rfl

/-- The tokens of the type of a binding, as far as it is printed. -/
theorem spellings_ascription (options : PrintOptions) {ascription : Option Identifier}
    (printable : ∀ ascribed ∈ ascription, IsName ascribed.text) (breaks : Breaks rest)
    : Breaks ((printAscription options ascription).toList ++ rest)
      ∧ Token.spellings ((printAscription options ascription).toList ++ rest)
        = ascriptionSpellings (if options.stripTypes then none else ascription)
          ++ Token.spellings rest := by
  cases ascription with
  | none => simpa [printAscription, ascriptionSpellings] using breaks
  | some name =>
      cases stripped : options.stripTypes with
      | true => simpa [printAscription, ascriptionSpellings, stripped] using breaks
      | false =>
          simp only [printAscription, stripped, Bool.false_eq_true, if_false,
            String.toList_append, List.append_assoc]
          refine ⟨breaks_cons (by decide), ?_⟩
          change Token.spellings (':' :: ' ' :: (name.text.toList ++ rest)) = _
          rw [spellings_colon, spellings_space, spellings_name (printable name rfl) breaks]
          rfl

theorem spellings_declaration (options : PrintOptions) {declared : Declaration}
    (printable : declared.Printable) (breaks : Breaks rest)
    : Token.spellings ((declared.printOnto options "").toList ++ rest)
      = (if options.stripTypes then declared.untyped else declared).spellings
        ++ Token.spellings rest := by
  cases declared with
  | binding location name ascription initializer =>
      obtain ⟨isName, ascribed, right⟩ := printable
      obtain ⟨ends, typeTokens⟩ := spellings_ascription options ascribed
        (@breaks_spacedEquals ((initializer.printOnto "").toList ++ rest))
      rw [Declaration.printOnto, Expr.printOnto_eq_append, String.empty_append]
      simp only [String.toList_append, List.append_assoc]
      rw [spellings_let, spellings_name isName ends, typeTokens, spellings_spacedEquals,
        spellings_expr right breaks]
      cases options.stripTypes <;> simp [Declaration.untyped, Declaration.spellings]
  | typeAlias location name aliased =>
      obtain ⟨isName, right⟩ := printable
      rw [Declaration.printOnto, String.empty_append]
      simp only [String.toList_append, List.append_assoc]
      rw [spellings_type, spellings_name isName breaks_spacedEquals, spellings_spacedEquals,
        spellings_name right breaks]
      cases options.stripTypes <;> rfl

theorem Declaration.printOnto_eq_append (options : PrintOptions) (out : String)
    (declared : Declaration)
    : declared.printOnto options out = out ++ declared.printOnto options "" := by
  cases declared with
  | binding location name ascription initializer =>
      rw [printOnto, printOnto, Expr.printOnto_eq_append,
        Expr.printOnto_eq_append ("" ++ _ ++ _ ++ _ ++ _)]
      simp [String.append_assoc]
  | typeAlias location name aliased => simp [printOnto, String.append_assoc]

theorem Statement.printOnto_eq_append (options : PrintOptions) (out : String)
    (statement : Statement)
    : statement.printOnto options out = out ++ statement.printOnto options "" := by
  cases statement with
  | expression location value =>
      rw [printOnto, printOnto, Expr.printOnto_eq_append, String.append_assoc]
  | declaration declared =>
      rw [printOnto, printOnto, Declaration.printOnto_eq_append, String.append_assoc]

/-- The tokens of a printed statement, whatever stands behind its semicolon. -/
theorem spellings_statement (options : PrintOptions) {statement : Statement}
    (printable : statement.Printable) (rest : List Char)
    : Token.spellings ((statement.printOnto options "").toList ++ rest)
      = (statement.shown options).spellings ++ (.semicolon, ";") :: Token.spellings rest := by
  have breaks : Breaks (";".toList ++ rest) := breaks_cons (by decide)
  have semicolon : Token.spellings (";".toList ++ rest)
      = (.semicolon, ";") :: Token.spellings rest := spellings_semicolon rest
  cases statement with
  | expression location value =>
      rw [Statement.printOnto, String.toList_append, List.append_assoc,
        spellings_expr printable breaks, semicolon]
      simp [Statement.shown, Statement.untyped, Statement.spellings]
  | declaration declared =>
      rw [Statement.printOnto, String.toList_append, List.append_assoc,
        spellings_declaration options printable breaks, semicolon]
      cases stripped : options.stripTypes <;>
        simp [Statement.shown, Statement.untyped, Statement.spellings, stripped]

/-- The source text of statements, each with a line break before it. -/
theorem Module.printRest_eq_append (options : PrintOptions) (out : String)
    (statements : List Statement)
    : printRest options out statements = out ++ printRest options "" statements := by
  induction statements generalizing out with
  | nil => simp [printRest]
  | cons statement rest ih =>
      rw [printRest, printRest, Statement.printOnto_eq_append, ih,
        Statement.printOnto_eq_append options ("" ++ options.newLine),
        ih ("" ++ options.newLine ++ _)]
      simp [String.append_assoc]

end

section

variable {options : PrintOptions} (blank : ∀ c ∈ options.newLine.toList, isBlank c = true)

include blank

theorem spellings_printRest {statements : List Statement}
    (printable : ∀ statement ∈ statements, statement.Printable) {rest : List Char}
    : Token.spellings ((Module.printRest options "" statements).toList ++ rest)
      = moduleSpellings (statements.map (Statement.shown options)) ++ Token.spellings rest := by
  induction statements with
  | nil => simp [Module.printRest, moduleSpellings]
  | cons statement later ih =>
      obtain ⟨first, others⟩ := List.forall_mem_cons.mp printable
      rw [Module.printRest, Module.printRest_eq_append, Statement.printOnto_eq_append,
        String.empty_append]
      simp only [String.toList_append, List.append_assoc]
      rw [spellings_append_blank blank, spellings_statement options first, ih others]
      simp [moduleSpellings]

/-- A printed module has the tokens of its statements. -/
theorem spellings_print {tree : Module}
    (printable : ∀ statement ∈ tree.statements, statement.Printable)
    : Token.spellings (tree.print options).toList
      = moduleSpellings (tree.statements.map (Statement.shown options)) := by
  obtain ⟨statements⟩ := tree
  cases statements with
  | nil => exact spellings_nil
  | cons first rest =>
      obtain ⟨head, later⟩ := List.forall_mem_cons.mp printable
      have ends : Token.spellings (if options.trailingNewLine then options.newLine else "").toList
          = [] := by
        cases options.trailingNewLine with
        | false => exact spellings_nil
        | true =>
            have only := spellings_append_blank blank []
            rwa [List.append_nil, spellings_nil] at only
      rw [Module.print]
      simp only
      rw [Module.printRest_eq_append]
      simp only [String.toList_append, List.append_assoc]
      rw [spellings_statement options head, spellings_printRest blank later, ends]
      simp [moduleSpellings]

end

end LetLang

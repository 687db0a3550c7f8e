import LetLang.Proofs.Parse.Grammar
import LetLang.Proofs.Print.Spelling

/-! Printed tokens are derivable from the grammar, and what they derive is what was printed,
except for its locations.
-/

namespace LetLang

open LetLang.Grammar

-----------------------------------------------------------------------------------------
-- Trees without locations
-----------------------------------------------------------------------------------------

/-- A name without its location. -/
def Identifier.unplaced (name : Identifier) : Identifier :=
  ⟨0, name.text⟩

/-- An atom without its location. -/
def Atom.unplaced : Atom → Atom
  | identifier name => identifier name.unplaced
  | number _ value => number 0 value
  | boolean _ value => boolean 0 value

/-- An expression without locations. -/
def Expr.unplaced : Expr → Expr
  | atom leaf => atom leaf.unplaced
  | assignment link value => assignment ⟨0, link.target.unplaced⟩ value.unplaced

/-- A declaration without locations. -/
def Declaration.unplaced : Declaration → Declaration
  | binding _ name ascription initializer =>
      binding 0 name.unplaced (ascription.map Identifier.unplaced) initializer.unplaced
  | typeAlias _ name aliased => typeAlias 0 name.unplaced aliased.unplaced

/-- A statement without locations. -/
def Statement.unplaced : Statement → Statement
  | expression _ value => expression 0 value.unplaced
  | declaration declared => declaration declared.unplaced

/-- A module without locations. -/
def Module.unplaced (tree : Module) : Module :=
  ⟨tree.statements.map Statement.unplaced⟩

-----------------------------------------------------------------------------------------
-- From tokens to statements
-----------------------------------------------------------------------------------------

theorem exists_atomForm {token : Token} {leaf : Atom} (printable : leaf.Printable)
    (spelled : token.spelling = leaf.spelling)
    : ∃ found, AtomForm token found ∧ found.unplaced = leaf.unplaced := by
  cases leaf with
  | identifier name =>
      obtain ⟨kind, text⟩ := Prod.mk.inj spelled
      exact ⟨_, .identifier kind, by simp [Atom.unplaced, Identifier.unplaced, Token.name, text]⟩
  | number location value =>
      obtain ⟨kind, text⟩ := Prod.mk.inj spelled
      obtain ⟨whole, rfl, finite⟩ := printable
      have same := (Binary64.sourceText_ofNat finite).2.2
      exact ⟨_, .number kind, by rw [Atom.unplaced, text, same]; rfl⟩
  | boolean location value =>
      obtain ⟨kind, text⟩ := Prod.mk.inj spelled
      refine ⟨_, .boolean kind, ?_⟩
      rw [Atom.unplaced, text]
      cases value <;> rfl

theorem exists_exprForm {tokens : List Token} {value : Expr} (printable : value.Printable)
    (spelled : tokens.map Token.spelling = value.spellings)
    : ∃ found, ExprForm tokens found ∧ found.unplaced = value.unplaced := by
  induction value generalizing tokens with
  | atom leaf =>
      obtain ⟨token, rest, rfl, first, none⟩ := List.map_eq_cons_iff.mp spelled
      obtain rfl := List.map_eq_nil_iff.mp none
      obtain ⟨found, form, same⟩ := exists_atomForm printable first
      exact ⟨_, .atom form, congrArg Expr.atom same⟩
  | assignment link value ih =>
      obtain ⟨target, _, rfl, name, rest⟩ := List.map_eq_cons_iff.mp spelled
      obtain ⟨mark, tokens, rfl, equals, right⟩ := List.map_eq_cons_iff.mp rest
      obtain ⟨found, form, same⟩ := ih printable.2 right
      obtain ⟨kind, text⟩ := Prod.mk.inj name
      refine ⟨_, .assignment kind (Prod.mk.inj equals).1 form, ?_⟩
      simp [Expr.unplaced, same, Identifier.unplaced, Token.name, text]

theorem exists_declarationForm {tokens : List Token} {declared : Declaration}
    (printable : declared.Printable)
    (spelled : tokens.map Token.spelling = declared.spellings)
    : ∃ found,
        StatementForm tokens (.declaration found) ∧ found.unplaced = declared.unplaced := by
  cases declared with
  | binding location name ascription initializer =>
      obtain ⟨opening, _, rfl, keyword, spelled⟩ := List.map_eq_cons_iff.mp spelled
      obtain ⟨bound, tokens, rfl, named, spelled⟩ := List.map_eq_cons_iff.mp spelled
      obtain ⟨_, _, right⟩ := printable
      obtain ⟨nameKind, nameText⟩ := Prod.mk.inj named
      cases ascription with
      | none =>
          obtain ⟨mark, tokens, rfl, equals, spelled⟩ := List.map_eq_cons_iff.mp spelled
          obtain ⟨found, form, same⟩ := exists_exprForm right spelled
          refine ⟨_, .binding (Prod.mk.inj keyword).1 nameKind (Prod.mk.inj equals).1 form, ?_⟩
          simp [Declaration.unplaced, same, Identifier.unplaced, Token.name, nameText]
      | some ascribed =>
          obtain ⟨divider, _, rfl, colon, spelled⟩ := List.map_eq_cons_iff.mp spelled
          obtain ⟨typeToken, _, rfl, typeName, spelled⟩ := List.map_eq_cons_iff.mp spelled
          obtain ⟨mark, tokens, rfl, equals, spelled⟩ := List.map_eq_cons_iff.mp spelled
          obtain ⟨found, form, same⟩ := exists_exprForm right spelled
          obtain ⟨typeKind, typeText⟩ := Prod.mk.inj typeName
          refine ⟨_, .typedBinding (Prod.mk.inj keyword).1 nameKind (Prod.mk.inj colon).1 typeKind
            (Prod.mk.inj equals).1 form, ?_⟩
          simp [Declaration.unplaced, same, Identifier.unplaced, Token.name, nameText, typeText]
  | typeAlias location name aliased =>
      obtain ⟨opening, _, rfl, keyword, spelled⟩ := List.map_eq_cons_iff.mp spelled
      obtain ⟨bound, _, rfl, named, spelled⟩ := List.map_eq_cons_iff.mp spelled
      obtain ⟨mark, _, rfl, equals, spelled⟩ := List.map_eq_cons_iff.mp spelled
      obtain ⟨target, _, rfl, right, none⟩ := List.map_eq_cons_iff.mp spelled
      obtain rfl := List.map_eq_nil_iff.mp none
      obtain ⟨nameKind, nameText⟩ := Prod.mk.inj named
      obtain ⟨aliasedKind, aliasedText⟩ := Prod.mk.inj right
      refine ⟨_, .typeAlias (Prod.mk.inj keyword).1 nameKind (Prod.mk.inj equals).1 aliasedKind,
        ?_⟩
      simp [Declaration.unplaced, Identifier.unplaced, Token.name, nameText, aliasedText]

theorem exists_statementForm {tokens : List Token} {statement : Statement}
    (printable : statement.Printable)
    (spelled : tokens.map Token.spelling = statement.spellings)
    : ∃ found, StatementForm tokens found ∧ found.unplaced = statement.unplaced := by
  cases statement with
  | expression location value =>
      obtain ⟨found, form, same⟩ := exists_exprForm printable spelled
      cases tokens with
      | nil => cases form
      | cons first rest =>
          exact ⟨_, .expression form, congrArg (Statement.expression 0) same⟩
  | declaration declared =>
      obtain ⟨found, form, same⟩ := exists_declarationForm printable spelled
      exact ⟨_, form, congrArg Statement.declaration same⟩

/-- The tokens of statements derive them, by induction over the statements. -/
theorem exists_moduleForm {tokens : List Token} {statements : List Statement}
    (printable : ∀ statement ∈ statements, statement.Printable)
    (spelled : tokens.map Token.spelling = moduleSpellings statements)
    : ∃ found,
        ModuleForm tokens found
        ∧ found.map Statement.unplaced = statements.map Statement.unplaced := by
  induction statements generalizing tokens with
  | nil =>
      obtain rfl := List.map_eq_nil_iff.mp spelled
      exact ⟨[], .nil, rfl⟩
  | cons statement rest ih =>
      obtain ⟨head, others⟩ := List.forall_mem_cons.mp printable
      rw [moduleSpellings, List.flatMap_cons, List.append_assoc, List.singleton_append] at spelled
      obtain ⟨body, _, rfl, first, spelled⟩ := List.map_eq_append_iff.mp spelled
      obtain ⟨mark, later, rfl, semicolon, spelled⟩ := List.map_eq_cons_iff.mp spelled
      obtain ⟨found, form, same⟩ := exists_statementForm head first
      obtain ⟨remaining, forms, equal⟩ := ih others spelled
      refine ⟨_, .cons form (Prod.mk.inj semicolon).1 forms, ?_⟩
      rw [List.map_cons, List.map_cons, same, equal]

end LetLang

import LetLang.Parse.Expression
import LetLang.Tree.Module
import Mathlib.Data.Set.Insert

/-! The language of modules: a context-free grammar over tokens, whose derivations carry the
tree they stand for, and the conditions on the names and numbers of that tree.
-/

namespace LetLang

/-- The name that an identifier token spells. -/
def Token.name (token : Token) : Identifier :=
  ⟨token.start, token.text⟩

namespace Grammar

/-- `Atom := IDENT | NUMBER | BOOLEAN` -/
inductive AtomForm : Token → Atom → Prop
  | identifier {token} (kind : token.kind = .identifier) : AtomForm token (.identifier token.name)
  | number {token} (kind : token.kind = .number)
    : AtomForm token (.number token.start (Parse.numberOf token.text))
  | boolean {token} (kind : token.kind = .boolean)
    : AtomForm token (.boolean token.start (token.text == "true"))

/-- `Expr := IDENT '=' Expr | Atom` -/
inductive ExprForm : List Token → Expr → Prop
  | atom {token found} (leaf : AtomForm token found) : ExprForm [token] (.atom found)
  | assignment {target mark tokens value} (name : target.kind = .identifier)
    (equals : mark.kind = .equals) (right : ExprForm tokens value)
    : ExprForm (target :: mark :: tokens) (.assignment ⟨target.start, target.name⟩ value)

/-- `Stmt := 'let' IDENT (':' IDENT)? '=' Expr | 'type' IDENT '=' IDENT | Expr` -/
inductive StatementForm : List Token → Statement → Prop
  | binding {opening declared mark tokens initializer} (keyword : opening.kind = .letKeyword)
    (name : declared.kind = .identifier) (equals : mark.kind = .equals)
    (right : ExprForm tokens initializer)
    : StatementForm (opening :: declared :: mark :: tokens)
        (.declaration (.binding opening.start declared.name none initializer))
  | typedBinding {opening declared divider ascribed mark tokens initializer}
    (keyword : opening.kind = .letKeyword) (name : declared.kind = .identifier)
    (colon : divider.kind = .colon) (typeName : ascribed.kind = .identifier)
    (equals : mark.kind = .equals) (right : ExprForm tokens initializer)
    : StatementForm (opening :: declared :: divider :: ascribed :: mark :: tokens)
        (.declaration (.binding opening.start declared.name (some ascribed.name) initializer))
  | typeAlias {opening declared mark aliased} (keyword : opening.kind = .typeKeyword)
    (name : declared.kind = .identifier) (equals : mark.kind = .equals)
    (right : aliased.kind = .identifier)
    : StatementForm [opening, declared, mark, aliased]
        (.declaration (.typeAlias opening.start declared.name aliased.name))
  | expression {first tokens value} (whole : ExprForm (first :: tokens) value)
    : StatementForm (first :: tokens) (.expression first.start value)

/-- `Module := (Stmt ';')*` -/
inductive ModuleForm : List Token → List Statement → Prop
  | nil : ModuleForm [] []
  | cons {tokens mark later statement statements} (body : StatementForm tokens statement)
    (semicolon : mark.kind = .semicolon) (rest : ModuleForm later statements)
    : ModuleForm (tokens ++ mark :: later) (statement :: statements)

/-- The first token of an expression starts an atom. -/
theorem ExprForm.first_kind {first : Token} {tokens : List Token} {value : Expr}
    (form : ExprForm (first :: tokens) value)
    : first.kind = .identifier ∨ first.kind = .number ∨ first.kind = .boolean := by
  cases form with
  | atom leaf =>
      cases leaf with
      | identifier kind => exact .inl kind
      | number kind => exact .inr (.inl kind)
      | boolean kind => exact .inr (.inr kind)
  | assignment name => exact .inl name

theorem AtomForm.unique {token : Token} {left right : Atom} (first : AtomForm token left)
    (second : AtomForm token right)
    : left = right := by
  cases first <;> cases second <;> simp_all

theorem ExprForm.unique {tokens : List Token} {left right : Expr} (first : ExprForm tokens left)
    (second : ExprForm tokens right)
    : left = right := by
  induction first generalizing right with
  | atom leaf =>
      cases second with
      | atom other => rw [leaf.unique other]
  | assignment _ _ tail ih =>
      cases second with
      | assignment _ _ other => rw [ih other]

/-- A statement starts with the keyword of its declaration, if it is one. -/
theorem StatementForm.keyword_iff {first : Token} {tokens : List Token} {statement : Statement}
    (form : StatementForm (first :: tokens) statement)
    : statement.declaration?.isSome = true
      ↔ first.kind = .letKeyword ∨ first.kind = .typeKeyword := by
  cases form with
  | binding keyword | typedBinding keyword | typeAlias keyword =>
      simp [Statement.declaration?, keyword]
  | expression whole =>
      rcases whole.first_kind with kind | kind | kind <;> simp [Statement.declaration?, kind]

/-- The tokens of a statement determine it. -/
theorem StatementForm.unique {tokens : List Token} {left right : Statement}
    (first : StatementForm tokens left) (second : StatementForm tokens right)
    : left = right := by
  cases first with
  | binding keyword name equals value =>
      cases second with
      | binding _ _ _ other => rw [value.unique other]
      | typedBinding _ _ colon => simp [equals] at colon
      | typeAlias other => simp [keyword] at other
      | expression whole =>
          rcases whole.first_kind with kind | kind | kind <;> simp [keyword] at kind
  | typedBinding keyword name colon typeName equals value =>
      cases second with
      | binding _ _ other => simp [colon] at other
      | typedBinding _ _ _ _ _ other => rw [value.unique other]
      | expression whole =>
          rcases whole.first_kind with kind | kind | kind <;> simp [keyword] at kind
  | typeAlias keyword name equals right =>
      cases second with
      | binding other => simp [keyword] at other
      | typeAlias => rfl
      | expression whole =>
          rcases whole.first_kind with kind | kind | kind <;> simp [keyword] at kind
  | expression whole =>
      cases second with
      | binding keyword | typedBinding keyword | typeAlias keyword =>
          rcases whole.first_kind with kind | kind | kind <;> simp [keyword] at kind
      | expression other => rw [whole.unique other]

theorem ExprForm.kind_ne_semicolon {tokens : List Token} {value : Expr}
    (form : ExprForm tokens value) {token : Token} (member : token ∈ tokens)
    : token.kind ≠ .semicolon := by
  induction form with
  | atom leaf =>
      obtain rfl := List.mem_singleton.mp member
      cases leaf <;> simp_all
  | assignment name equals _ ih =>
      rcases List.mem_cons.mp member with rfl | member
      · simp [name]
      rcases List.mem_cons.mp member with rfl | member
      · simp [equals]
      · exact ih member

/-- A semicolon only stands behind a statement, never inside it. -/
theorem StatementForm.kind_ne_semicolon {tokens : List Token} {statement : Statement}
    (form : StatementForm tokens statement) {token : Token} (member : token ∈ tokens)
    : token.kind ≠ .semicolon := by
  cases form with
  | binding keyword name equals right =>
      simp only [List.mem_cons] at member
      rcases member with rfl | rfl | rfl | member
      · simp [keyword]
      · simp [name]
      · simp [equals]
      · exact right.kind_ne_semicolon member
  | typedBinding keyword name colon typeName equals right =>
      simp only [List.mem_cons] at member
      rcases member with rfl | rfl | rfl | rfl | rfl | member
      · simp [keyword]
      · simp [name]
      · simp [colon]
      · simp [typeName]
      · simp [equals]
      · exact right.kind_ne_semicolon member
  | typeAlias keyword name equals right =>
      simp only [List.mem_cons, List.not_mem_nil, or_false] at member
      rcases member with rfl | rfl | rfl | rfl
      · simp [keyword]
      · simp [name]
      · simp [equals]
      · simp [right]
  | expression whole => exact whole.kind_ne_semicolon member

/-- A statement goes up to the next semicolon. -/
theorem StatementForm.takeWhile_eq {tokens : List Token} {statement : Statement} {mark : Token}
    (form : StatementForm tokens statement) (semicolon : mark.kind = .semicolon)
    (later : List Token)
    : (tokens ++ mark :: later).takeWhile (fun token => token.kind ≠ .semicolon) = tokens := by
  rw [List.takeWhile_append_of_pos (by simpa using fun _ => form.kind_ne_semicolon)]
  simp [semicolon]

/-- The tokens of a module determine it: its statements end at the semicolons. -/
theorem ModuleForm.unique {tokens : List Token} {left right : List Statement}
    (first : ModuleForm tokens left) (second : ModuleForm tokens right)
    : left = right := by
  induction first generalizing right with
  | nil =>
      generalize none : ([] : List Token) = tokens at second
      cases second with
      | nil => rfl
      | cons => simp at none
  | @cons body mark later statement statements form semicolon _ ih =>
      generalize same : body ++ mark :: later = tokens at second
      cases second with
      | nil => simp at same
      | @cons otherBody otherMark otherLater _ _ otherForm otherSemicolon rest =>
          obtain rfl : body = otherBody := by
            rw [← form.takeWhile_eq semicolon later, same,
              otherForm.takeWhile_eq otherSemicolon otherLater]
          obtain ⟨rfl, rfl⟩ := List.cons.inj (List.append_cancel_left same)
          rw [form.unique otherForm, ih rest]

end Grammar

-----------------------------------------------------------------------------------------
-- Conditions on names and numbers
-----------------------------------------------------------------------------------------

/-- The name that an atom refers to. -/
def Atom.references : Atom → List String
  | identifier name => [name.text]
  | number .. | boolean .. => []

/-- A number has a finite value. -/
def Atom.IsFinite : Atom → Prop
  | number _ value => value.isFinite = true
  | identifier _ | boolean .. => True

/-- The targets of an expression and the name that it ends with. -/
def Expr.references : Expr → List String
  | atom leaf => leaf.references
  | assignment link value => link.target.text :: value.references

/-- The names that a declaration refers to. The aliased name of a type is not one of them. -/
def Declaration.references : Declaration → List String
  | binding _ _ ascription initializer =>
      ascription.toList.map Identifier.text ++ initializer.references
  | typeAlias .. => []

/-- The names that a statement refers to. -/
def Statement.references : Statement → List String
  | expression _ value => value.references
  | declaration declared => declared.references

/-- The name of a declaration, if there is one. -/
def Declaration.namesOf : Option Declaration → Set String
  | none => ∅
  | some declared => {declared.name.text}

/-- The name that a statement declares. -/
def Statement.declares (statement : Statement) : Set String :=
  Declaration.namesOf statement.declaration?

theorem Statement.declaration?_eq_some_iff {statement : Statement} {declared : Declaration}
    : statement.declaration? = some declared ↔ statement = .declaration declared := by
  cases statement <;> simp [Statement.declaration?]

theorem Statement.mem_declares_iff {statement : Statement} {name : String}
    : name ∈ statement.declares
      ↔ ∃ declared, statement.declaration? = some declared ∧ declared.name.text = name := by
  unfold Statement.declares
  cases statement.declaration? <;> simp [Declaration.namesOf, eq_comm]

/-- A statement that can stand where the given names are visible. -/
structure Statement.Admissible (names : Set String) (statement : Statement) : Prop where
  visible : ∀ name ∈ statement.references, name ∈ names
  fresh : ∀ name ∈ statement.declares, name ∉ names
  finite : ∀ value, statement.value? = some value → value.leaf.IsFinite

namespace Grammar

/-- Each statement can stand behind those before it: what they declare is visible to it. -/
def Scoped (names : Set String) : List Statement → Prop
  | [] => True
  | statement :: rest => statement.Admissible names ∧ Scoped (names ∪ statement.declares) rest

/-- The statements are a derivation of the tokens in which the names and numbers are right. -/
structure Derives (names : Set String) (tokens : List Token) (statements : List Statement)
    : Prop where
  form : ModuleForm tokens statements
  admitted : Scoped names statements

end Grammar

end LetLang

import LetLang.Proofs.CommandLine.Outcome
import LetLang.Proofs.Json.RoundTrip
import LetLang.Proofs.Number.Spelling

/-! Output as JSON loses nothing: a module with finite numbers is determined by its text. There is
a text unless a chain of assignments is too deep.
-/

namespace LetLang

-----------------------------------------------------------------------------------------
-- Parts of values
-----------------------------------------------------------------------------------------

namespace Json

@[simp]
theorem text_inj {left right : String} : Json.text left = Json.text right ↔ left = right := by
  simp [Json.text]

@[simp]
theorem record_inj {left right : List (String × Json)}
    : Json.record left = Json.record right ↔ left = right := by
  have injective : Function.Injective fun member : String × Json => (some member.1, member.2) := by
    intro member other same
    simpa [Prod.ext_iff] using same
  simp only [Json.record, Json.object.injEq]
  exact (List.map_injective_iff.mpr injective).eq_iff

@[simp]
theorem natural_inj {left right : Nat} : Json.natural left = Json.natural right ↔ left = right := by
  refine ⟨fun same => ?_, fun same => same ▸ rfl⟩
  have digits := congrArg String.toList (Json.number.inj same)
  rw [toList_numeral, toList_numeral] at digits
  rw [← @Nat.ofDigitChars_ten_toDigits left, digits, Nat.ofDigitChars_ten_toDigits]

theorem optional_injective {α : Type} {encode : α → Json} (injective : Function.Injective encode)
    (present : ∀ value, encode value ≠ .null)
    : Function.Injective (Json.optional encode) := by
  rintro (_ | left) (_ | right) same
  · rfl
  · exact absurd same.symm (present right)
  · exact absurd same (present left)
  · exact congrArg some (injective same)

end Json

/-- All numbers of a module are finite. -/
def Module.HasFiniteNumbers (tree : Module) : Prop :=
  ∀ statement ∈ tree.statements, ∀ value, statement.value? = some value → value.leaf.IsFinite

namespace Emit

-----------------------------------------------------------------------------------------
-- Trees and their values
-----------------------------------------------------------------------------------------

@[simp]
theorem location_inj {left right : Location} : location left = location right ↔ left = right := by
  simp [location]

theorem identifier_injective : Function.Injective identifier := by
  rintro ⟨_, _⟩ ⟨_, _⟩ same
  simpa [identifier] using same

@[simp]
theorem identifier_inj {left right : Identifier}
    : identifier left = identifier right ↔ left = right :=
  identifier_injective.eq_iff

/-- A finite number is determined by its value in JSON. -/
theorem eq_of_number_eq {left right : Binary64} (finite : left.isFinite = true)
    (alsoFinite : right.isFinite = true)
    (same : Json.optional .number left.jsonText? = Json.optional .number right.jsonText?)
    : left = right := by
  have texts := Json.optional_injective (fun _ _ => Json.number.inj) (fun _ => nofun) same
  exact Binary64.eq_of_jsonText?_eq finite alsoFinite texts

theorem eq_of_atom_eq {left right : Atom} (finite : left.IsFinite) (alsoFinite : right.IsFinite)
    (same : atom left = atom right)
    : left = right := by
  -- Atoms of two kinds differ in their first member.
  cases left <;> cases right <;> simp [atom] at same
  case identifier.identifier name other =>
    obtain ⟨place, text⟩ := same
    cases name
    cases other
    simp_all
  case number.number place value otherPlace other =>
    rw [same.1, eq_of_number_eq finite alsoFinite same.2]
  case boolean.boolean place value otherPlace other => rw [same.1, same.2]

/-- By induction along a chain of assignments. -/
theorem eq_of_expression_eq {left right : Expr} (finite : left.leaf.IsFinite)
    (alsoFinite : right.leaf.IsFinite) (same : expression left = expression right)
    : left = right := by
  induction left generalizing right with
  | atom leaf =>
      cases right with
      | atom other => exact congrArg Expr.atom (eq_of_atom_eq finite alsoFinite same)
      | assignment link value => cases leaf <;> simp [expression, atom] at same
  | assignment link value ih =>
      cases right with
      | atom other => cases other <;> simp [expression, atom] at same
      | assignment otherLink other =>
          simp only [Expr.leaf_assignment] at finite alsoFinite
          simp [expression] at same
          obtain ⟨place, target, values⟩ := same
          rw [ih finite alsoFinite values]
          cases link
          cases otherLink
          simp_all

theorem eq_of_declaration_eq {left right : Declaration}
    (finite : ∀ value, (Statement.declaration left).value? = some value → value.leaf.IsFinite)
    (alsoFinite
      : ∀ value, (Statement.declaration right).value? = some value → value.leaf.IsFinite)
    (same : declaration left = declaration right)
    : left = right := by
  cases left <;> cases right <;> simp [declaration] at same
  case binding.binding place name ascription value otherPlace otherName otherAscription other =>
    obtain ⟨places, names, ascriptions, values⟩ := same
    have ascribed := Json.optional_injective identifier_injective (fun _ => nofun) ascriptions
    rw [places, names, ascribed,
      eq_of_expression_eq (finite value rfl) (alsoFinite other rfl) values]
  case typeAlias.typeAlias => simp_all

theorem eq_of_statement_eq {left right : Statement}
    (finite : ∀ value, left.value? = some value → value.leaf.IsFinite)
    (alsoFinite : ∀ value, right.value? = some value → value.leaf.IsFinite)
    (same : statement left = statement right)
    : left = right := by
  cases left <;> cases right <;> simp [statement] at same
  case expression.expression place value otherPlace other =>
    rw [same.1, eq_of_expression_eq (finite value rfl) (alsoFinite other rfl) same.2]
  case declaration.declaration => rw [eq_of_declaration_eq finite alsoFinite same]

theorem eq_of_ofModule_eq {left right : Module} (finite : left.HasFiniteNumbers)
    (alsoFinite : right.HasFiniteNumbers) (same : ofModule left = ofModule right)
    : left = right := by
  obtain ⟨statements⟩ := left
  obtain ⟨others⟩ := right
  simp only [ofModule, Json.record_inj, List.cons.injEq, Prod.mk.injEq, Json.array.injEq, true_and,
    and_true] at same
  congr
  induction statements generalizing others with
  | nil => simpa using same
  | cons first rest ih =>
      cases others with
      | nil => simp at same
      | cons other others =>
          obtain ⟨firstFinite, restFinite⟩ := List.forall_mem_cons.mp finite
          obtain ⟨otherFinite, othersFinite⟩ := List.forall_mem_cons.mp alsoFinite
          obtain ⟨firsts, rests⟩ := List.cons.inj same
          rw [eq_of_statement_eq firstFinite otherFinite firsts,
            ih restFinite others othersFinite rests]

-----------------------------------------------------------------------------------------
-- Numbers of values
-----------------------------------------------------------------------------------------

open Json (HasLiterals)

theorem hasLiterals_location (place : Location) : HasLiterals (location place) :=
  .record (by simp [HasLiterals.natural])

theorem hasLiterals_identifier (name : Identifier) : HasLiterals (identifier name) :=
  .record (by simp [hasLiterals_location, HasLiterals.text])

theorem hasLiterals_number (value : Binary64)
    : HasLiterals (Json.optional .number value.jsonText?) := by
  cases found : value.jsonText? with
  | none => exact .null
  | some text => exact .number (Binary64.isLiteral_jsonText found)

theorem hasLiterals_atom (leaf : Atom) : HasLiterals (atom leaf) := by
  cases leaf <;> refine .record ?_
  · simp [hasLiterals_location, HasLiterals.text]
  · simp [hasLiterals_location, HasLiterals.text, hasLiterals_number]
  · simp [hasLiterals_location, HasLiterals.text, HasLiterals.bool]

theorem hasLiterals_expression (value : Expr) : HasLiterals (expression value) := by
  induction value with
  | atom leaf => exact hasLiterals_atom leaf
  | assignment link value ih =>
      refine .record ?_
      simp [hasLiterals_location, hasLiterals_identifier, HasLiterals.text, ih]

theorem hasLiterals_declaration (declared : Declaration) : HasLiterals (declaration declared) := by
  cases declared <;> refine .record ?_ <;>
    simp [hasLiterals_location, hasLiterals_identifier, hasLiterals_expression, HasLiterals.text,
      HasLiterals.optional hasLiterals_identifier]

theorem hasLiterals_statement (given : Statement) : HasLiterals (statement given) := by
  cases given with
  | expression place value =>
      have node : HasLiterals
          (.record [("location", location place), ("expression", expression value)]) :=
        .record (by simp [hasLiterals_location, hasLiterals_expression])
      exact .record (by simp [HasLiterals.text, node])
  | declaration declared =>
      exact .record (by simp [HasLiterals.text, hasLiterals_declaration])

theorem hasLiterals_ofModule (tree : Module) : HasLiterals (ofModule tree) := by
  have statements : HasLiterals (.array (tree.statements.map statement)) := by
    refine .array fun item member => ?_
    obtain ⟨given, _, rfl⟩ := List.mem_map.mp member
    exact hasLiterals_statement given
  exact .record (by simp [statements])

end Emit

-----------------------------------------------------------------------------------------
-- Output of modules
-----------------------------------------------------------------------------------------

namespace Module

theorem emit_json_of_le {tree : Module} (shallow : tree.depth ≤ 256)
    : tree.emit .json = .ok (some ((Emit.ofModule tree).write .pretty)) :=
  if_neg (Nat.not_lt.mpr shallow)

theorem emit_json_of_lt {tree : Module} (deep : 256 < tree.depth)
    : tree.emit .json = .error (.tooDeep tree.depth 256) :=
  if_pos deep

theorem eq_write_of_emit_json {tree : Module} {text : String}
    (emitted : tree.emit .json = .ok (some text))
    : text = (Emit.ofModule tree).write .pretty := by
  rcases Nat.lt_or_ge 256 tree.depth with deep | shallow
  · rw [emit_json_of_lt deep] at emitted
    cases emitted
  · rw [emit_json_of_le shallow] at emitted
    cases emitted
    rfl

/-- The JSON form of a module is refused if an expression is too deep, with the depth of the deepest
one, and loses nothing otherwise: modules with finite numbers that have the same text are the same.
-/
theorem emit_json_lossless {tree other : Module} (finite : tree.HasFiniteNumbers)
    (alsoFinite : other.HasFiniteNumbers)
    : (∃ depth,
        tree.IsDeepest depth
        ∧ (256 < depth → tree.emit .json = .error (.tooDeep depth 256))
        ∧ (depth ≤ 256 → ∃ text, tree.emit .json = .ok (some text)))
      ∧ ∀ text,
          tree.emit .json = .ok (some text)
          → other.emit .json = .ok (some text)
          → tree = other := by
  refine ⟨⟨tree.depth, tree.isDeepest_depth, emit_json_of_lt,
    fun shallow => ⟨_, emit_json_of_le shallow⟩⟩, fun text emitted alsoEmitted => ?_⟩
  have same := (eq_write_of_emit_json emitted).symm.trans (eq_write_of_emit_json alsoEmitted)
  refine Emit.eq_of_ofModule_eq finite alsoFinite ?_
  exact Json.eq_of_write_eq Json.Style.pretty_addsBlanks (Emit.hasLiterals_ofModule tree)
    (Emit.hasLiterals_ofModule other) same

/-- A chain that ends with zero, and the same chain with the other zero. -/
theorem emit_json_lossless_zeros
    : let chain (zero : Binary64) : Module :=
        ⟨[.declaration (.binding 0 ⟨4, "\"x\n"⟩ (some ⟨7, "é"⟩)
          (.assignment ⟨12, ⟨12, "y"⟩⟩ (.atom (.number 16 zero))))]⟩
      (chain ⟨0⟩).HasFiniteNumbers
      ∧ (chain ⟨0x8000000000000000⟩).HasFiniteNumbers
      ∧ ∃ text other,
          (chain ⟨0⟩).emit .json = .ok (some text)
          ∧ (chain ⟨0x8000000000000000⟩).emit .json = .ok (some other)
          ∧ text ≠ other := by
  intro chain
  have finite (zero : Binary64) (finite : zero.isFinite = true)
      : (chain zero).HasFiniteNumbers := by
    simpa [chain, HasFiniteNumbers, Statement.value?, Atom.IsFinite] using finite
  have positive := finite ⟨0⟩ (by decide)
  have negative := finite ⟨0x8000000000000000⟩ (by decide)
  have emitted : (chain ⟨0⟩).emit .json = _ := emit_json_of_le (by decide)
  have alsoEmitted : (chain ⟨0x8000000000000000⟩).emit .json = _ := emit_json_of_le (by decide)
  refine ⟨positive, negative, _, _, emitted, alsoEmitted, fun same => ?_⟩
  rw [← same] at alsoEmitted
  have equal := (emit_json_lossless positive negative).2 _ emitted alsoEmitted
  exact absurd equal (by decide)

end Module

end LetLang

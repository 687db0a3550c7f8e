import LetLang.Proofs.Number.Rounding

/-! Numbers in the source. A run of digits is refused exactly if it spells a natural that is
rounded to infinity, and otherwise read as the number nearest to that natural. Zeros in front of it
do not matter, and a greater natural is never read as a smaller number.
-/

namespace LetLang.Parse

open LetLang.Binary64

/-- A token that is a run of digits. -/
structure IsNumeral (token : Token) : Prop where
  kind : token.kind = .number
  some : token.text.toList ≠ []
  digits : ∀ c ∈ token.text.toList, c.isDigit = true

/-- The natural that a run of digits spells. -/
def numeral (token : Token) : Nat :=
  Nat.ofDigitChars 10 token.text.toList 0

/-- The number that was read as an atom. -/
def Step.number? : Step Atom → Option Binary64
  | done (.number _ number) _ => some number
  | _ => none

section

variable {cursor : Cursor}

/-- A run of digits is refused from the limit on. -/
theorem atom_of_isNumeral (isNumeral : IsNumeral cursor.current)
    : atom cursor
      = if numeral cursor.current < overflow then
          .done (.number cursor.current.start (.ofNat (numeral cursor.current))) cursor.advance
        else
          fail (.invalidNumber cursor.current.span cursor.current.text) cursor.advance := by
  have limit := isFinite_ofNat_iff (numeral cursor.current)
  rw [atom_apply, isNumeral.kind]
  exact if_congr limit rfl rfl

theorem number?_of_isNumeral (isNumeral : IsNumeral cursor.current)
    : (atom cursor).number?
      = if numeral cursor.current < overflow then
          some (.ofNat (numeral cursor.current))
        else
          none := by
  rw [atom_of_isNumeral isNumeral]
  split <;> rfl

/-- A run of digits fails as a number exactly if its value is at least `2 ^ 1024 - 2 ^ 970`.
Otherwise it is read as the nearest number, which is a natural again. Zeros in front do not change
what is read, and what is read grows with the value.
-/
theorem atom_reads_numeral (isNumeral : IsNumeral cursor.current)
    : ((∃ stopped,
          atom cursor
            = .failed (.invalidNumber cursor.current.span cursor.current.text) stopped)
        ↔ 2 ^ 1024 - 2 ^ 970 ≤ numeral cursor.current)
      ∧ (numeral cursor.current < 2 ^ 1024 - 2 ^ 970
        → ∃ number,
            atom cursor = .done (.number cursor.current.start number) cursor.advance
            ∧ number.Rounds (numeral cursor.current)
            ∧ number.isNegative = false
            ∧ ∃ whole : Nat, number.value = whole)
      ∧ (∀ other : Cursor, IsNumeral other.current
        → ∀ zeros,
            other.current.text.toList = List.replicate zeros '0' ++ cursor.current.text.toList
            → (atom other).number? = (atom cursor).number?)
      ∧ ∀ other : Cursor, IsNumeral other.current
        → numeral cursor.current ≤ numeral other.current
        → ∀ number ∈ (atom cursor).number?, ∀ greater ∈ (atom other).number?,
            number.value ≤ greater.value := by
  refine ⟨?_, fun small => ?_, fun other alsoNumeral zeros spelled => ?_,
    fun other alsoNumeral le number read greater alsoRead => ?_⟩
  · change _ ↔ overflow ≤ numeral cursor.current
    rw [atom_of_isNumeral isNumeral]
    split
    · next small => simp [Nat.not_le.mpr small]
    · next great => exact iff_of_true ⟨_, rfl⟩ (Nat.not_lt.mp great)
  · change numeral cursor.current < overflow at small
    refine ⟨.ofNat (numeral cursor.current), ?_, rounds_ofNat small, isNegative_ofNat _,
      exists_value_ofNat small⟩
    rw [atom_of_isNumeral isNumeral, if_pos small]
  · have same : numeral other.current = numeral cursor.current := by
      rw [numeral, spelled, Nat.ofDigitChars_append, Nat.ofDigitChars_replicate_zero]
      rfl
    rw [number?_of_isNumeral isNumeral, number?_of_isNumeral alsoNumeral, same]
  · rw [number?_of_isNumeral isNumeral] at read
    rw [number?_of_isNumeral alsoNumeral] at alsoRead
    split at read <;> cases read
    split at alsoRead <;> cases alsoRead
    exact value_ofNat_le le

end

/-- The first natural that is no number, with zeros in front, is read as the even one below. -/
theorem atom_reads_numeral_tie
    : let token : Token := ⟨.number, ⟨0, 18⟩, "009007199254740993"⟩
      let cursor := Cursor.ofTokens none [token] 18
      IsNumeral cursor.current
      ∧ numeral cursor.current = 2 ^ 53 + 1
      ∧ ∃ number,
          atom cursor = .done (.number 0 number) cursor.advance
          ∧ number.Rounds (2 ^ 53 + 1)
          ∧ number.isNegative = false
          ∧ ∃ whole : Nat, number.value = whole := by
  intro token cursor
  have isNumeral : IsNumeral cursor.current :=
    ⟨rfl, by decide, List.all_eq_true.mp (by decide)⟩
  have value : numeral cursor.current = 2 ^ 53 + 1 := by decide +kernel
  have small : numeral cursor.current < 2 ^ 1024 - 2 ^ 970 := by decide +kernel
  obtain ⟨number, read, rounds, rest⟩ := (atom_reads_numeral isNumeral).2.1 small
  refine ⟨isNumeral, value, number, read, ?_, rest⟩
  rw [value] at rounds
  exact_mod_cast rounds

end LetLang.Parse

import LetLang.Proofs.Number.Spelling

/-! Comparison of numbers. Numbers are compared by their bits, with an exception for zeros and one
for NaNs; this is equality of their values. It is symmetric and transitive, and reflexive but for a
NaN.
-/

namespace LetLang.Binary64

/-- Two numbers have one value: they are finite and equal as rationals, or they are the same
infinity.
-/
inductive SameValue (left right : Binary64) : Prop
  | finite (isFinite : left.isFinite = true) (alsoFinite : right.isFinite = true)
    (same : left.value = right.value)
  | infinite (isInfinite : left.magnitude = infinity) (alsoInfinite : right.magnitude = infinity)
    (sign : left.isNegative = right.isNegative)

section

variable {number left middle right : Binary64}

theorem isNaN_eq_false_iff : number.isNaN = false ↔ number.magnitude ≤ infinity := by
  rw [isNaN, decide_eq_false_iff_not, Nat.not_lt]

/-- A number has a value exactly if it is not a NaN. -/
theorem sameValue_self_iff : number.SameValue number ↔ number.isNaN = false := by
  rw [isNaN_eq_false_iff]
  constructor
  · rintro (⟨isFinite, -, -⟩ | ⟨isInfinite, -, -⟩)
    · exact Nat.le_of_lt (magnitude_lt_infinity isFinite)
    · exact Nat.le_of_eq isInfinite
  · intro least
    rcases Nat.lt_or_eq_of_le least with less | same
    · exact .finite (decide_eq_true less) (decide_eq_true less) rfl
    · exact .infinite same same rfl

theorem SameValue.symm (same : left.SameValue right) : right.SameValue left := by
  cases same with
  | finite isFinite alsoFinite same => exact .finite alsoFinite isFinite same.symm
  | infinite isInfinite alsoInfinite sign => exact .infinite alsoInfinite isInfinite sign.symm

theorem SameValue.trans (first : left.SameValue middle) (second : middle.SameValue right)
    : left.SameValue right := by
  cases first with
  | finite isFinite middleFinite same =>
      cases second with
      | finite _ alsoFinite alsoSame => exact .finite isFinite alsoFinite (same.trans alsoSame)
      | infinite middleInfinite =>
          exact absurd middleInfinite (Nat.ne_of_lt (magnitude_lt_infinity middleFinite))
  | infinite isInfinite middleInfinite sign =>
      cases second with
      | finite middleFinite =>
          exact absurd middleInfinite (Nat.ne_of_lt (magnitude_lt_infinity middleFinite))
      | infinite _ alsoInfinite alsoSign =>
          exact .infinite isInfinite alsoInfinite (sign.trans alsoSign)

theorem abs_value (number : Binary64) : |number.value| = magnitudeValue number.magnitude := by
  have some := magnitudeValue_nonneg number.magnitude
  rcases number.value_eq_or with same | mirrored
  · rw [same, abs_of_nonneg some]
  · rw [mirrored, abs_neg, abs_of_nonneg some]

theorem value_eq_zero_iff : number.value = 0 ↔ number.magnitude = 0 := by
  rw [← abs_eq_zero, abs_value, ← magnitudeValue_zero]
  exact magnitudeValue_strictMono.injective.eq_iff

/-- Numbers of one value are the same number, unless they are the two zeros. -/
theorem eq_or_of_value_eq (same : left.value = right.value)
    : left = right ∨ left.magnitude = 0 ∧ right.magnitude = 0 := by
  have size : left.magnitude = right.magnitude := by
    apply magnitudeValue_strictMono.injective
    rw [← abs_value, ← abs_value, same]
  by_cases sign : left.isNegative = right.isNegative
  · exact .inl (eq_of_magnitude_eq sign size)
  · -- One value is then the other one mirrored, so both are zero.
    have mirrored : left.value = -right.value := by
      unfold value
      rw [size]
      cases negative : left.isNegative <;> cases alsoNegative : right.isNegative <;> simp_all
    have zero : left.value = 0 := by linarith
    have none : left.magnitude = 0 := value_eq_zero_iff.mp zero
    exact .inr ⟨none, size ▸ none⟩

/-- The comparison of numbers is equality of values. -/
theorem equal_eq_true_iff : left.equal right = true ↔ left.SameValue right := by
  have unfolded : left.equal right = true
      ↔ (left.isNaN = false ∧ right.isNaN = false)
        ∧ (left = right ∨ left.magnitude = 0 ∧ right.magnitude = 0) := by
    have bits : left.bits = right.bits ↔ left = right := by
      cases left
      cases right
      simp
    simp [equal, bits]
  rw [unfolded]
  constructor
  · rintro ⟨⟨number, -⟩, rfl | ⟨none, alsoNone⟩⟩
    · exact sameValue_self_iff.mpr number
    · have positive : 0 < infinity := by decide
      exact .finite (decide_eq_true (none ▸ positive)) (decide_eq_true (alsoNone ▸ positive))
        ((value_eq_zero_iff.mpr none).trans (value_eq_zero_iff.mpr alsoNone).symm)
  · intro same
    have number := sameValue_self_iff.mp (same.trans same.symm)
    have alsoNumber := sameValue_self_iff.mp (same.symm.trans same)
    refine ⟨⟨number, alsoNumber⟩, ?_⟩
    cases same with
    | finite _ _ same => exact eq_or_of_value_eq same
    | infinite isInfinite alsoInfinite sign =>
        exact .inl (eq_of_magnitude_eq sign (isInfinite.trans alsoInfinite.symm))

end

end LetLang.Binary64

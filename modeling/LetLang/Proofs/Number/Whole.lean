import LetLang.Number.Layout
import LetLang.Parse.Expression
import Mathlib.Algebra.Ring.Nat

/-! Numbers that are read from digits. Their values are whole, each value is the number it is
read as, and the source text of such a number is a run of digits that reads back as the number.
-/

namespace LetLang.Binary64

/-- The magnitude of `factor * 2 ^ (order - 52)`, where the factor is a full significand. -/
def normal (order factor : Nat) : Nat :=
  (order + 1022) * exponentWeight + factor

/-- A significand of full length. -/
def IsFull (factor : Nat) : Prop :=
  2 ^ 52 ≤ factor ∧ factor < 2 ^ 53

/-- The value of a magnitude is a natural. -/
def HasValue (magnitude value : Nat) : Prop :=
  numerator magnitude = value * denominator magnitude

theorem exponentWeight_eq : exponentWeight = 2 ^ 52 := rfl

-----------------------------------------------------------------------------------------
-- Rounding of naturals
-----------------------------------------------------------------------------------------

theorem roundedQuotient_mul_self (quotient : Nat) {divisor : Nat} (positive : 0 < divisor)
    : roundedQuotient (quotient * divisor) divisor = quotient := by
  unfold roundedQuotient
  rw [Nat.mul_div_cancel _ positive, Nat.mul_mod_left]
  simp only [Nat.mul_zero, Nat.not_lt_zero, false_or]
  rw [if_neg (by omega)]

theorem roundedQuotient_bounds (dividend divisor : Nat)
    : dividend / divisor ≤ roundedQuotient dividend divisor
      ∧ roundedQuotient dividend divisor ≤ dividend / divisor + 1 := by
  unfold roundedQuotient
  simp only
  split <;> omega

theorem binaryOrder_one {value : Nat} (positive : value ≠ 0)
    : binaryOrder value 1 = value.log2 := by
  have lower := Nat.log2_self_le positive
  have one : Nat.log2 1 = 0 := by decide
  unfold binaryOrder
  simp only [one, Int.natCast_zero, Int.sub_zero, Int.toNat_natCast, Nat.shiftLeft_eq,
    Int.toNat_neg_natCast, Nat.pow_zero, Nat.mul_one, Nat.one_mul]
  rw [if_neg (by omega)]

/-- A natural is rounded to 53 binary digits. -/
theorem nearestMagnitude_one {value : Nat} (positive : value ≠ 0)
    : nearestMagnitude value 1
      = min
          (normal value.log2
            (roundedQuotient (value * 2 ^ (52 - value.log2)) (2 ^ (value.log2 - 52))))
          infinity := by
  have order : max (binaryOrder value 1) (-1022) = value.log2 := by
    rw [binaryOrder_one positive]
    omega
  have down : (-((value.log2 : Int) - 52)).toNat = 52 - value.log2 := by omega
  have up : ((value.log2 : Int) - 52).toNat = value.log2 - 52 := by omega
  have field : ((value.log2 : Int) + 1022).toNat = value.log2 + 1022 := by omega
  unfold nearestMagnitude
  simp only [positive, if_false, order, down, up, field, Nat.shiftLeft_eq, Nat.one_mul, normal]

-----------------------------------------------------------------------------------------
-- Magnitudes of whole values
-----------------------------------------------------------------------------------------

section

variable {order factor value : Nat}

theorem exponentField_normal (full : IsFull factor)
    : exponentField (normal order factor) = order + 1023 := by
  obtain ⟨lower, upper⟩ := full
  simp only [exponentField, normal, exponentWeight_eq]
  omega

theorem significand_normal (full : IsFull factor) : significand (normal order factor) = factor := by
  have field := @exponentField_normal order factor full
  obtain ⟨lower, upper⟩ := full
  rw [significand, field, if_neg (by omega)]
  simp only [normal, exponentWeight_eq]
  omega

theorem scale_normal (full : IsFull factor)
    : scale (normal order factor) = (order : Int) - 52 := by
  rw [scale, exponentField_normal full]
  omega

theorem hasValue_normal (full : IsFull factor)
    (scaled : value * 2 ^ (52 - order) = factor * 2 ^ (order - 52))
    : HasValue (normal order factor) value := by
  have up : ((order : Int) - 52).toNat = order - 52 := by omega
  have down : (-((order : Int) - 52)).toNat = 52 - order := by omega
  rw [HasValue, numerator, denominator, significand_normal full, scale_normal full, up, down,
    Nat.shiftLeft_eq, Nat.shiftLeft_eq, Nat.one_mul, scaled]

/-- The order of a value is read off its full significand. -/
theorem log2_eq_of_scaled (full : IsFull factor)
    (scaled : value * 2 ^ (52 - order) = factor * 2 ^ (order - 52))
    : value ≠ 0 ∧ value.log2 = order := by
  obtain ⟨lower, upper⟩ := full
  have bounds : 2 ^ order ≤ value ∧ value < 2 ^ (order + 1) := by
    by_cases small : order ≤ 52
    · have power : 2 ^ order * 2 ^ (52 - order) = 2 ^ 52 := by
        rw [← Nat.pow_add, Nat.add_sub_cancel' small]
      have none : order - 52 = 0 := by omega
      rw [none, Nat.pow_zero, Nat.mul_one] at scaled
      constructor
      · refine Nat.le_of_mul_le_mul_right ?_ (Nat.two_pow_pos (52 - order))
        omega
      · refine Nat.lt_of_mul_lt_mul_right (a := 2 ^ (52 - order)) ?_
        rw [Nat.pow_succ, Nat.mul_right_comm]
        omega
    · have none : 52 - order = 0 := by omega
      have power : 2 ^ order = 2 ^ 52 * 2 ^ (order - 52) := by
        rw [← Nat.pow_add, Nat.add_sub_cancel' (by omega)]
      have next : 2 ^ (order + 1) = 2 ^ 53 * 2 ^ (order - 52) := by
        rw [Nat.pow_succ, power]
        omega
      rw [none, Nat.pow_zero, Nat.mul_one] at scaled
      rw [scaled, power, next]
      exact ⟨Nat.mul_le_mul_right _ lower,
        Nat.mul_lt_mul_of_pos_right upper (Nat.two_pow_pos _)⟩
  have positive : value ≠ 0 := by
    have := Nat.two_pow_pos order
    omega
  exact ⟨positive, (Nat.log2_eq_iff positive).mpr bounds⟩

/-- The value of a magnitude is read as that magnitude. -/
theorem nearestMagnitude_eq_normal (full : IsFull factor)
    (scaled : value * 2 ^ (52 - order) = factor * 2 ^ (order - 52))
    (finite : normal order factor < infinity)
    : nearestMagnitude value 1 = normal order factor := by
  obtain ⟨positive, log⟩ := log2_eq_of_scaled full scaled
  rw [nearestMagnitude_one positive, log, scaled,
    roundedQuotient_mul_self _ (Nat.two_pow_pos _), Nat.min_eq_left (Nat.le_of_lt finite)]

/-- A natural of at most 53 binary digits is not rounded. -/
theorem rounded_of_small (small : value.log2 ≤ 52)
    : roundedQuotient (value * 2 ^ (52 - value.log2)) (2 ^ (value.log2 - 52))
      = value * 2 ^ (52 - value.log2) := by
  have none : value.log2 - 52 = 0 := by omega
  have whole := roundedQuotient_mul_self (value * 2 ^ (52 - value.log2)) Nat.one_pos
  rw [Nat.mul_one] at whole
  rw [none, Nat.pow_zero, whole]

/-- Rounding a natural to 53 binary digits gives a full significand or, by a carry, the next
power of two.
-/
theorem rounded_bounds (positive : value ≠ 0)
    : 2 ^ 52 ≤ roundedQuotient (value * 2 ^ (52 - value.log2)) (2 ^ (value.log2 - 52))
      ∧ roundedQuotient (value * 2 ^ (52 - value.log2)) (2 ^ (value.log2 - 52)) ≤ 2 ^ 53
      ∧ (roundedQuotient (value * 2 ^ (52 - value.log2)) (2 ^ (value.log2 - 52)) = 2 ^ 53
          → 52 < value.log2) := by
  obtain ⟨lower, upper⟩ := (Nat.log2_eq_iff positive).mp rfl
  by_cases small : value.log2 ≤ 52
  · have power : 2 ^ value.log2 * 2 ^ (52 - value.log2) = 2 ^ 52 := by
      rw [← Nat.pow_add, Nat.add_sub_cancel' small]
    have above := Nat.mul_le_mul_right (2 ^ (52 - value.log2)) lower
    have below := Nat.mul_lt_mul_of_pos_right upper (Nat.two_pow_pos (52 - value.log2))
    rw [Nat.pow_succ, Nat.mul_right_comm] at below
    rw [rounded_of_small small]
    omega
  · have power : 2 ^ value.log2 = 2 ^ 52 * 2 ^ (value.log2 - 52) := by
      rw [← Nat.pow_add, Nat.add_sub_cancel' (by omega)]
    have none : 52 - value.log2 = 0 := by omega
    have above : 2 ^ 52 ≤ value / 2 ^ (value.log2 - 52) := by
      rw [Nat.le_div_iff_mul_le (Nat.two_pow_pos _), ← power]
      exact lower
    have below : value / 2 ^ (value.log2 - 52) < 2 ^ 53 := by
      rw [Nat.div_lt_iff_lt_mul (Nat.two_pow_pos _)]
      rw [Nat.pow_succ, power, Nat.mul_right_comm] at upper
      exact upper
    have bounds := roundedQuotient_bounds value (2 ^ (value.log2 - 52))
    rw [none, Nat.pow_zero, Nat.mul_one]
    omega

/-- A natural whose number is finite is rounded to a magnitude with a whole value. -/
theorem exists_normal (positive : value ≠ 0) (finite : nearestMagnitude value 1 < infinity)
    : ∃ order factor whole,
        IsFull factor
        ∧ whole * 2 ^ (52 - order) = factor * 2 ^ (order - 52)
        ∧ nearestMagnitude value 1 = normal order factor := by
  obtain ⟨lower, upper, large⟩ := rounded_bounds positive
  have exact := @rounded_of_small value
  rw [nearestMagnitude_one positive] at finite ⊢
  generalize roundedQuotient (value * 2 ^ (52 - value.log2)) (2 ^ (value.log2 - 52)) = rounded
    at *
  have chosen : min (normal value.log2 rounded) infinity = normal value.log2 rounded := by omega
  rw [chosen]
  rcases Nat.eq_or_lt_of_le upper with carry | short
  · -- A carry out of the significand doubles the power of two.
    have order := large carry
    refine ⟨value.log2 + 1, 2 ^ 52, 2 ^ (value.log2 + 1), ⟨Nat.le_refl _, by decide⟩, ?_, ?_⟩
    · rw [← Nat.pow_add, ← Nat.pow_add]
      congr 1
      omega
    · rw [carry]
      simp only [normal, exponentWeight_eq]
      omega
  by_cases small : value.log2 ≤ 52
  · have none : value.log2 - 52 = 0 := by omega
    refine ⟨value.log2, rounded, value, ⟨lower, short⟩, ?_, rfl⟩
    rw [none, Nat.pow_zero, Nat.mul_one, exact small]
  · have none : 52 - value.log2 = 0 := by omega
    refine ⟨value.log2, rounded, rounded * 2 ^ (value.log2 - 52), ⟨lower, short⟩, ?_, rfl⟩
    rw [none, Nat.pow_zero, Nat.mul_one]

/-- The number of a natural has a whole value that is read as the same number. -/
theorem exists_value (positive : value ≠ 0) (finite : nearestMagnitude value 1 < infinity)
    : ∃ whole,
        whole ≠ 0
        ∧ HasValue (nearestMagnitude value 1) whole
        ∧ nearestMagnitude whole 1 = nearestMagnitude value 1
        ∧ (scale (nearestMagnitude value 1) < 0 → whole < 2 ^ 53) := by
  obtain ⟨order, factor, whole, full, scaled, same⟩ := exists_normal positive finite
  obtain ⟨some, log⟩ := log2_eq_of_scaled full scaled
  rw [same] at finite ⊢
  refine ⟨whole, some, hasValue_normal full scaled, nearestMagnitude_eq_normal full scaled finite,
    ?_⟩
  intro fraction
  rw [scale_normal full] at fraction
  have small : whole < 2 ^ (order + 1) := ((Nat.log2_eq_iff some).mp log).2
  exact Nat.lt_of_lt_of_le small (Nat.pow_le_pow_right (by decide) (by omega))

end

end LetLang.Binary64

-----------------------------------------------------------------------------------------
-- Decimals of whole values
-----------------------------------------------------------------------------------------

namespace LetLang.Decimal

open LetLang.Binary64

section

variable {tie : Tie} {magnitude whole : Nat}

theorem magnitude_of_onGrid? {exponent : Int} {decimal : Decimal}
    (found : onGrid? tie magnitude exponent = some decimal)
    : decimal.magnitude = magnitude ∧ decimal.exponent = exponent := by
  unfold onGrid? at found
  simp only at found
  split at found
  · next below =>
      cases found
      exact ⟨below.1, rfl⟩
  split at found
  · next above =>
      cases found
      exact ⟨above, rfl⟩
  · cases found

theorem denominator_pos (magnitude : Nat) : 0 < denominator magnitude := by
  rw [denominator, Nat.shiftLeft_eq, Nat.one_mul]
  exact Nat.two_pow_pos _

/-- A whole value lies on the grid of ones. -/
theorem onGrid?_zero_isSome (value : HasValue magnitude whole)
    (nearest : nearestMagnitude whole 1 = magnitude)
    : (onGrid? tie magnitude 0).isSome = true := by
  have positive := denominator_pos magnitude
  have below : Decimal.magnitude ⟨whole, 0⟩ = magnitude := by
    simpa [Decimal.magnitude] using nearest
  have quotient : numerator magnitude / denominator magnitude = whole := by
    rw [value, Nat.mul_div_cancel _ positive]
  have remainder : numerator magnitude % denominator magnitude = 0 := by
    rw [value, Nat.mul_mod_left]
  unfold onGrid?
  simp [quotient, remainder, positive, below]

/-- The order of a whole value is one less than the number of its digits. -/
theorem order_of_hasValue (value : HasValue magnitude whole) (positive : whole ≠ 0)
    : order (numerator magnitude) (denominator magnitude)
      = (Nat.toDigits 10 whole).length - 1 := by
  have least := denominator_pos magnitude
  have above : denominator magnitude ≤ numerator magnitude := by
    rw [value]
    exact Nat.le_mul_of_pos_left _ (Nat.pos_of_ne_zero positive)
  rw [order, if_pos above, value, Nat.mul_div_cancel _ least]

theorem magnitude_withoutTrailingZeros {digits : Nat} {exponent : Int} (whole : 0 ≤ exponent)
    : (withoutTrailingZeros digits exponent).magnitude = Decimal.magnitude ⟨digits, exponent⟩
      ∧ 0 ≤ (withoutTrailingZeros digits exponent).exponent := by
  fun_induction withoutTrailingZeros digits exponent with
  | case1 digits exponent trailing ih =>
      obtain ⟨same, positive⟩ := ih (by omega)
      refine ⟨same.trans ?_, positive⟩
      have up : (exponent + 1).toNat = exponent.toNat + 1 := by omega
      have none : (-(exponent + 1)).toNat = (-exponent).toNat := by omega
      have product : digits / 10 * 10 = digits := by omega
      simp only [Decimal.magnitude, up, none, Nat.pow_eq]
      rw [Nat.pow_succ', ← Nat.mul_assoc, product]
  | case2 digits exponent _ => exact ⟨rfl, whole⟩

/-- A great whole value has an exponent that is not negative. -/
theorem exact_of_hasValue (value : HasValue magnitude whole) (integral : 0 ≤ scale magnitude)
    : exact magnitude = ⟨whole, 0⟩ := by
  have none : (-scale magnitude).toNat = 0 := by omega
  have unit : denominator magnitude = 1 := by simp [denominator, none]
  rw [HasValue, unit, Nat.mul_one] at value
  have digits : significand magnitude <<< (scale magnitude).toNat = whole := value
  simp [exact, none, digits, Int.min_eq_right integral]

/-- A search over counts stops no later than at a count that is known to be a hit. -/
theorem exists_le_of_findSome?_range' {α : Type} (search : Nat → Option α) {count length : Nat}
    (inside : count ∈ List.range' 1 length) (hit : (search count).isSome = true)
    : ∃ first found,
        first ≤ count
        ∧ search first = some found
        ∧ (List.range' 1 length).findSome? search = some found := by
  have ends : ((List.range' 1 length).findSome? search).isSome = true :=
    List.findSome?_isSome_iff.mpr ⟨count, inside, hit⟩
  obtain ⟨found, result⟩ := Option.isSome_iff_exists.mp ends
  obtain ⟨tried, first, later, split, here, missed⟩ := List.findSome?_eq_some_iff.mp result
  refine ⟨first, found, ?_, here, result⟩
  have sorted : (List.range' 1 length).Pairwise (· < ·) := List.pairwise_lt_range'
  rw [split] at inside sorted
  rcases List.mem_append.mp inside with before | after
  · simp [missed count before] at hit
  · rcases List.mem_cons.mp after with same | behind
    · exact Nat.le_of_eq same.symm
    · have tail := (List.pairwise_append.mp sorted).2.1
      exact Nat.le_of_lt (List.rel_of_pairwise_cons tail behind)

/-- The shortest decimal of a whole value is a whole number, and rounds to it. -/
theorem shortest_of_hasValue (value : HasValue magnitude whole) (positive : whole ≠ 0)
    (nearest : nearestMagnitude whole 1 = magnitude)
    (small : scale magnitude < 0 → whole < 2 ^ 53)
    : (shortest tie magnitude).magnitude = magnitude ∧ 0 ≤ (shortest tie magnitude).exponent := by
  have ones := @onGrid?_zero_isSome tie _ _ value nearest
  have some : 0 < (Nat.toDigits 10 whole).length := Nat.length_toDigits_pos
  have bound := @Nat.length_toDigits_le_iff 10 whole 17 (by decide) (by decide)
  rw [shortest, order_of_hasValue value positive]
  generalize (Nat.toDigits 10 whole).length = count at *
  suffices chosen : ∃ decimal : Decimal,
      ((List.range' 1 17).findSome? fun digits : Nat =>
        onGrid? tie magnitude ((count : Int) - 1 + 1 - digits)).getD (exact magnitude) = decimal
      ∧ decimal.magnitude = magnitude ∧ 0 ≤ decimal.exponent by
    obtain ⟨decimal, same, rounds, whole⟩ := chosen
    obtain ⟨stripped, left⟩ := @magnitude_withoutTrailingZeros decimal.digits _ whole
    simp only [same]
    exact ⟨stripped.trans rounds, left⟩
  by_cases few : count ≤ 17
  · -- The grid of ones is among those tried, so no finer one is taken.
    have last : (count : Int) - 1 + 1 - count = 0 := by omega
    have inside : count ∈ List.range' 1 17 := List.mem_range'_1.mpr ⟨some, by omega⟩
    obtain ⟨digits, decimal, earlier, here, result⟩ := exists_le_of_findSome?_range'
      (fun digits : Nat => onGrid? tie magnitude ((count : Int) - 1 + 1 - digits)) inside
      (by rwa [last])
    obtain ⟨rounds, exponent⟩ := magnitude_of_onGrid? here
    exact ⟨decimal, by rw [result]; rfl, rounds, by omega⟩
  cases found : (List.range' 1 17).findSome? fun digits : Nat =>
      onGrid? tie magnitude ((count : Int) - 1 + 1 - digits) with
  | some decimal =>
      obtain ⟨digits, member, here⟩ := List.exists_of_findSome?_eq_some found
      obtain ⟨rounds, exponent⟩ := magnitude_of_onGrid? here
      have inside := List.mem_range'_1.mp member
      exact ⟨decimal, rfl, rounds, by omega⟩
  | none =>
      have great : ¬whole < 10 ^ 17 := fun less => few (bound.mpr less)
      have up : 0 ≤ scale magnitude := by omega
      refine ⟨⟨whole, 0⟩, exact_of_hasValue value up, ?_, Int.le_refl _⟩
      simpa [Decimal.magnitude] using nearest

/-- A decimal that is a whole number is written with its digits and zeros. -/
theorem positional_of_whole {decimal : Decimal} (whole : 0 ≤ decimal.exponent)
    : decimal.positional []
      = Nat.toDigits 10 decimal.digits ++ List.replicate decimal.exponent.toNat '0' := by
  have some : 0 < decimal.digitText.length := Nat.length_toDigits_pos
  have point : decimal.point = decimal.digitText.length + decimal.exponent := rfl
  have zeros : decimal.point.toNat - decimal.digitText.length = decimal.exponent.toNat := by omega
  unfold positional
  simp only
  rw [if_neg (by omega), if_pos (by omega), zeros, List.append_nil]
  rfl

theorem isDigit_of_mem_positional {decimal : Decimal} (whole : 0 ≤ decimal.exponent) {c : Char}
    (member : c ∈ decimal.positional [])
    : c.isDigit = true := by
  rw [positional_of_whole whole] at member
  rcases List.mem_append.mp member with digit | zero
  · exact Nat.isDigit_of_mem_toDigits (by decide) (by decide) digit
  · rw [List.eq_of_mem_replicate zero]
    rfl

theorem ofDigitChars_positional {decimal : Decimal} (whole : 0 ≤ decimal.exponent)
    : Nat.ofDigitChars 10 (decimal.positional []) 0
      = decimal.digits * 10 ^ decimal.exponent.toNat := by
  rw [positional_of_whole whole, Nat.ofDigitChars_append, Nat.ofDigitChars_ten_toDigits,
    Nat.ofDigitChars_replicate_zero, Nat.mul_comm]

end

end LetLang.Decimal

-----------------------------------------------------------------------------------------
-- Numbers read from digits
-----------------------------------------------------------------------------------------

namespace LetLang.Binary64

theorem nearestMagnitude_le_infinity (dividend divisor : Nat)
    : nearestMagnitude dividend divisor ≤ infinity := by
  unfold nearestMagnitude
  split
  · exact Nat.zero_le _
  · exact Nat.min_le_right _ _

theorem toNat_bits_ofNat (value : Nat) : (ofNat value).bits.toNat = nearestMagnitude value 1 := by
  have bound := nearestMagnitude_le_infinity value 1
  have small : infinity < UInt64.size := by decide
  exact UInt64.toNat_ofNat_of_lt (by omega)

theorem magnitude_ofNat (value : Nat) : (ofNat value).magnitude = nearestMagnitude value 1 := by
  have bound := nearestMagnitude_le_infinity value 1
  have small : infinity < signWeight := by decide
  rw [magnitude, toNat_bits_ofNat, Nat.mod_eq_of_lt (by omega)]

theorem isNegative_ofNat (value : Nat) : (ofNat value).isNegative = false := by
  have bound := nearestMagnitude_le_infinity value 1
  have small : infinity < signWeight := by decide
  rw [isNegative, toNat_bits_ofNat, decide_eq_false_iff_not]
  omega

/-- A finite number that was read from digits is written with the digits of a whole number. -/
theorem toList_sourceText_ofNat {value : Nat} (finite : (ofNat value).isFinite = true)
    : (ofNat value).sourceText.toList
      = if nearestMagnitude value 1 = 0 then
          ['0']
        else
          (Decimal.shortest .up (nearestMagnitude value 1)).positional [] := by
  have bound := nearestMagnitude_le_infinity value 1
  have number : (ofNat value).isNaN = false := by
    rw [isNaN, magnitude_ofNat, decide_eq_false_iff_not]
    omega
  rw [sourceText, number, finite, magnitude_ofNat]
  by_cases zero : nearestMagnitude value 1 = 0 <;> simp [zero, signed, isNegative_ofNat]

/-- A finite number that was read from digits is written as a run of digits, and read back from
it.
-/
theorem sourceText_ofNat {value : Nat} (finite : (ofNat value).isFinite = true)
    : (ofNat value).sourceText.toList ≠ []
      ∧ (∀ c ∈ (ofNat value).sourceText.toList, c.isDigit = true)
      ∧ Parse.numberOf (ofNat value).sourceText = ofNat value := by
  have below : nearestMagnitude value 1 < infinity := by
    rw [isFinite, magnitude_ofNat] at finite
    exact of_decide_eq_true finite
  rw [Parse.numberOf, toList_sourceText_ofNat finite]
  by_cases zero : nearestMagnitude value 1 = 0
  · rw [if_pos zero]
    refine ⟨by simp, by simp, ?_⟩
    rw [ofNat, ofNat, zero]
    rfl
  · have positive : value ≠ 0 := by
      intro none
      rw [none] at zero
      exact zero rfl
    obtain ⟨whole, some, hasValue, nearest, small⟩ := exists_value positive below
    obtain ⟨rounds, exponent⟩ :=
      @Decimal.shortest_of_hasValue .up _ _ hasValue some nearest small
    have unit : (-(Decimal.shortest .up (nearestMagnitude value 1)).exponent).toNat = 0 := by omega
    rw [if_neg zero, Decimal.ofDigitChars_positional exponent]
    refine ⟨?_, fun c => Decimal.isDigit_of_mem_positional exponent, ?_⟩
    · rw [Decimal.positional_of_whole exponent]
      simp [Nat.toDigits_ne_nil]
    · rw [Decimal.magnitude, unit] at rounds
      exact congrArg ofMagnitude rounds

end LetLang.Binary64

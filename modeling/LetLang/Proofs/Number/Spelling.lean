import LetLang.Number.Layout
import LetLang.Proofs.Json.Scalars
import LetLang.Proofs.Number.Rounding

/-! The JSON text of a finite number spells a decimal that rounds to the number, so it determines
the number up to the last bit, the sign of a zero included.
-/

namespace LetLang.Decimal

open LetLang.Binary64
open LetLang.Json (IsRun IsWhole IsFraction IsExponent IsLiteral isWhole_toDigits parts_unique)

-----------------------------------------------------------------------------------------
-- The value of a decimal
-----------------------------------------------------------------------------------------

/-- The value of a decimal. -/
def value (decimal : Decimal) : ℚ :=
  decimal.digits * 10 ^ decimal.exponent

theorem value_eq_div (decimal : Decimal)
    : ((decimal.digits * Nat.pow 10 decimal.exponent.toNat : Nat) : ℚ)
        / (Nat.pow 10 (-decimal.exponent).toNat : Nat)
      = decimal.value := by
  rw [value, zpow_eq_div]
  simp only [Nat.pow_eq]
  push_cast
  ring

/-- Decimals of one value round alike. -/
theorem magnitude_congr {left right : Decimal} (same : left.value = right.value)
    : left.magnitude = right.magnitude := by
  refine nearestMagnitude_congr (Nat.pow_pos (by decide)) (Nat.pow_pos (by decide)) ?_
  rw [value_eq_div, value_eq_div, same]

theorem value_withoutTrailingZeros (digits : Nat) (exponent : Int)
    : (withoutTrailingZeros digits exponent).value = value ⟨digits, exponent⟩ := by
  fun_induction withoutTrailingZeros digits exponent with
  | case1 digits exponent trailing ih =>
      have tens : (digits : ℚ) = (digits / 10 : Nat) * 10 := by
        exact_mod_cast (Nat.div_mul_cancel (Nat.dvd_of_mod_eq_zero trailing.1)).symm
      rw [ih, value, value, tens, zpow_add_one₀ (by norm_num)]
      ring
  | case2 => rfl

/-- All digits of a finite number make up its value. -/
theorem value_exact (magnitude : Nat) : (exact magnitude).value = magnitudeValue magnitude := by
  have sign : min (scale magnitude) 0 = -((-scale magnitude).toNat : Int) := by omega
  have ten : (10 : ℚ) ^ (-scale magnitude).toNat
      = 2 ^ (-scale magnitude).toNat * 5 ^ (-scale magnitude).toNat := by
    rw [← mul_pow]
    norm_num
  have some : (5 : ℚ) ^ (-scale magnitude).toNat ≠ 0 := pow_ne_zero _ (by norm_num)
  rw [value, exact, magnitudeValue, numerator, denominator]
  simp only [sign, zpow_neg, zpow_natCast, ten, Nat.pow_eq, Nat.one_shiftLeft]
  push_cast
  rw [mul_inv, div_eq_mul_inv]
  field_simp

theorem magnitude_exact {magnitude : Nat} (finite : magnitude < infinity)
    : (exact magnitude).magnitude = magnitude := by
  refine nearestMagnitude_of_value finite (Nat.pow_pos (by decide)) ?_
  rw [value_eq_div, value_exact]

/-- The shortest decimal of a finite number rounds to that number. -/
theorem magnitude_shortest {magnitude : Nat} (finite : magnitude < infinity) (tie : Tie)
    : (shortest tie magnitude).magnitude = magnitude := by
  unfold shortest
  simp only
  rw [magnitude_congr (value_withoutTrailingZeros _ _)]
  cases found : (List.range' 1 17).findSome? fun count : Nat =>
      onGrid? tie magnitude
        (order (numerator magnitude) (denominator magnitude) + 1 - count) with
  | none => exact magnitude_exact finite
  | some decimal =>
      obtain ⟨count, _, hit⟩ := List.exists_of_findSome?_eq_some found
      exact (magnitude_of_onGrid? hit).1

theorem digits_ne_zero {decimal : Decimal} (some : decimal.magnitude ≠ 0) : decimal.digits ≠ 0 := by
  intro none
  rw [magnitude, none, Nat.zero_mul] at some
  exact some rfl

-----------------------------------------------------------------------------------------
-- The decimal that a text spells
-----------------------------------------------------------------------------------------

/-- The number that an exponent part stands for. -/
def exponentOf : List Char → Int
  | _ :: '-' :: digits => -(Nat.ofDigitChars 10 digits 0 : Nat)
  | _ :: '+' :: digits => Nat.ofDigitChars 10 digits 0
  | _ => 0

/-- The decimal with the digits of the whole part and of the fraction behind its point, moved by
the exponent part.
-/
def ofParts (whole fraction exponent : List Char) : Decimal :=
  ⟨Nat.ofDigitChars 10 (whole ++ fraction.drop 1) 0,
    exponentOf exponent - (fraction.drop 1).length⟩

/-- A number without a sign and its value. -/
def Spells (text : List Char) (value : ℚ) : Prop :=
  ∃ whole fraction exponent,
    IsWhole whole
    ∧ IsFraction fraction
    ∧ IsExponent exponent
    ∧ text = whole ++ (fraction ++ exponent)
    ∧ (ofParts whole fraction exponent).value = value

section Spells

variable {text : List Char} {value other : ℚ}

/-- The parts of a number are found one after the other. -/
theorem Spells.unique (spells : Spells text value) (alsoSpells : Spells text other)
    : value = other := by
  obtain ⟨whole, fraction, exponent, isWhole, isFraction, isExponent, rfl, rfl⟩ := spells
  obtain ⟨whole', fraction', exponent', isWhole', isFraction', isExponent', same, rfl⟩ := alsoSpells
  obtain ⟨rfl, rfl, rfl⟩ := parts_unique isWhole isFraction isExponent isWhole' isFraction'
    isExponent' same
  rfl

theorem Spells.ne_sign_cons (spells : Spells text value) (rest : List Char)
    : text ≠ '-' :: rest := by
  obtain ⟨whole, fraction, exponent, isWhole, _, _, rfl, _⟩ := spells
  obtain ⟨first, more, rfl⟩ := List.exists_cons_of_ne_nil isWhole.isRun.some
  intro same
  have digit := isWhole.isRun.digits first List.mem_cons_self
  rw [(List.cons.inj same).1] at digit
  exact absurd digit (by decide)

theorem Spells.isLiteral (spells : Spells text value) {sign : List Char}
    (signed : sign = [] ∨ sign = ['-'])
    : IsLiteral (sign ++ text) := by
  obtain ⟨whole, fraction, exponent, isWhole, isFraction, isExponent, rfl, _⟩ := spells
  exact ⟨sign, whole, fraction, exponent, signed, isWhole, isFraction, isExponent, by simp⟩

end Spells

section Layout

variable {decimal : Decimal}

theorem isRun_digitText (decimal : Decimal) : IsRun decimal.digitText :=
  (isWhole_toDigits decimal.digits).isRun

theorem ofDigitChars_digitText (decimal : Decimal)
    : Nat.ofDigitChars 10 decimal.digitText 0 = decimal.digits :=
  Nat.ofDigitChars_ten_toDigits

theorem point_eq (decimal : Decimal)
    : decimal.point = decimal.digitText.length + decimal.exponent := rfl

/-- The first digit of a decimal other than zero is no zero, however many are taken. -/
theorem isWhole_take (some : decimal.digits ≠ 0) {count : Nat} (positive : 0 < count)
    (zeros : List Char) (allZeros : ∀ c ∈ zeros, c = '0')
    : IsWhole (decimal.digitText.take count ++ zeros) := by
  obtain ⟨first, more, same⟩ := List.exists_cons_of_ne_nil decimal.isRun_digitText.some
  have notZero : first ≠ '0' := by
    rcases isWhole_toDigits decimal.digits with zero | ⟨_, notZero⟩
    · have none := decimal.ofDigitChars_digitText
      rw [digitText, zero] at none
      exact absurd none.symm some
    · rw [digitText] at same
      simpa [same] using notZero
  obtain ⟨count, rfl⟩ := Nat.exists_eq_add_of_lt positive
  refine .inr ⟨⟨by simp [same], fun c member => ?_⟩, by simpa [same] using notZero⟩
  rcases List.mem_append.mp member with digit | zero
  · exact decimal.isRun_digitText.digits c (List.mem_of_mem_take digit)
  · rw [allZeros c zero]
    rfl

theorem ofParts_eq {whole fraction exponent : List Char}
    (digits : Nat.ofDigitChars 10 (whole ++ fraction.drop 1) 0 = decimal.digits)
    (moved : exponentOf exponent - (fraction.drop 1).length = decimal.exponent)
    : ofParts whole fraction exponent = decimal := by
  rw [ofParts, digits, moved]

/-- A decimal below one. -/
theorem spells_below (small : decimal.point ≤ 0)
    : Spells ('0' :: '.' :: (List.replicate (-decimal.point).toNat '0' ++ decimal.digitText))
        decimal.value := by
  have point := decimal.point_eq
  have run : IsRun (List.replicate (-decimal.point).toNat '0' ++ decimal.digitText) := by
    refine ⟨by simp [decimal.isRun_digitText.some], fun c member => ?_⟩
    rcases List.mem_append.mp member with zero | digit
    · rw [List.eq_of_mem_replicate zero]
      rfl
    · exact decimal.isRun_digitText.digits c digit
  refine ⟨['0'], _, [], .inl rfl, .inr ⟨_, run, rfl⟩, .inl rfl, by simp, ?_⟩
  rw [@ofParts_eq decimal]
  · have zeros : ['0'] ++ (List.replicate (-decimal.point).toNat '0' ++ decimal.digitText)
        = List.replicate ((-decimal.point).toNat + 1) '0' ++ decimal.digitText := by
      rw [← List.append_assoc, ← List.replicate_one, List.replicate_append_replicate, Nat.add_comm]
    rw [List.drop_one, List.tail_cons, zeros, Nat.ofDigitChars_append,
      Nat.ofDigitChars_replicate_zero, Nat.mul_zero, decimal.ofDigitChars_digitText]
  · simp only [exponentOf, List.drop_one, List.tail_cons, List.length_append,
      List.length_replicate]
    omega

/-- A whole decimal. -/
theorem spells_whole (some : decimal.digits ≠ 0)
    (whole : (decimal.digitText.length : Int) ≤ decimal.point)
    : Spells
        (decimal.digitText
          ++ List.replicate (decimal.point.toNat - decimal.digitText.length) '0' ++ ['.', '0'])
        decimal.value := by
  have point := decimal.point_eq
  have length := List.length_pos_of_ne_nil decimal.isRun_digitText.some
  obtain ⟨count, exponent⟩ : ∃ count : Nat, decimal.exponent = count :=
    ⟨decimal.exponent.toNat, by omega⟩
  have zeros : decimal.point.toNat - decimal.digitText.length = count := by omega
  have digits := isWhole_take some length (List.replicate count '0')
    fun c member => List.eq_of_mem_replicate member
  rw [List.take_length] at digits
  rw [zeros]
  refine ⟨_, ['.', '0'], [], digits, .inr ⟨['0'], ⟨by simp, by simp⟩, rfl⟩, .inl rfl, by simp, ?_⟩
  rw [ofParts, List.append_assoc, List.drop_one, List.tail_cons, ← List.replicate_succ',
    Nat.ofDigitChars_append, Nat.ofDigitChars_replicate_zero, decimal.ofDigitChars_digitText,
    value, value, exponent]
  simp only [exponentOf, List.length_cons, List.length_nil, zpow_natCast]
  push_cast
  ring

/-- A decimal with its point inside its digits. -/
theorem spells_inside (some : decimal.digits ≠ 0) (positive : 0 < decimal.point)
    (inside : decimal.point < decimal.digitText.length)
    : Spells
        (decimal.digitText.take decimal.point.toNat
          ++ '.' :: decimal.digitText.drop decimal.point.toNat)
        decimal.value := by
  have point := decimal.point_eq
  have whole := isWhole_take some (show 0 < decimal.point.toNat by omega) [] (by simp)
  rw [List.append_nil] at whole
  have run : IsRun (decimal.digitText.drop decimal.point.toNat) := by
    refine ⟨?_, fun c member => decimal.isRun_digitText.digits c (List.mem_of_mem_drop member)⟩
    rw [Ne, List.drop_eq_nil_iff]
    omega
  refine ⟨_, _, [], whole, .inr ⟨_, run, rfl⟩, .inl rfl, by simp, ?_⟩
  rw [@ofParts_eq decimal]
  · rw [List.drop_one, List.tail_cons, List.take_append_drop, decimal.ofDigitChars_digitText]
  · simp only [exponentOf, List.drop_one, List.tail_cons, List.length_drop]
    omega

theorem spells_positional (some : decimal.digits ≠ 0)
    : Spells (decimal.positional ".0".toList) decimal.value := by
  unfold positional
  simp only
  split
  · next small => exact spells_below small
  · next positive =>
    split
    · next whole => exact spells_whole some whole
    · next inside => exact spells_inside some (by omega) (by omega)

theorem exponentOf_signed (exponent : Int)
    : exponentOf ('e' :: (if exponent < 0 then '-' else '+') :: Nat.toDigits 10 exponent.natAbs)
      = exponent := by
  split
  · simp only [exponentOf, Nat.ofDigitChars_ten_toDigits]
    omega
  · simp only [exponentOf, Nat.ofDigitChars_ten_toDigits]
    omega

/-- The digits behind the first one are set off by a point, if there are any. -/
theorem exists_scientific_eq (decimal : Decimal)
    : ∃ fraction,
        IsFraction fraction
        ∧ fraction.drop 1 = decimal.digitText.drop 1
        ∧ decimal.scientific
          = decimal.digitText.take 1
            ++ (fraction ++ 'e' :: (if decimal.point - 1 < 0 then '-' else '+')
              :: Nat.toDigits 10 (decimal.point - 1).natAbs) := by
  have digits : ∀ c ∈ decimal.digitText.drop 1, c.isDigit = true :=
    fun c member => decimal.isRun_digitText.digits c (List.mem_of_mem_drop member)
  unfold scientific
  cases tail : decimal.digitText.drop 1 with
  | nil => exact ⟨[], .inl rfl, rfl, by simp⟩
  | cons first more =>
      exact ⟨'.' :: first :: more, .inr ⟨_, ⟨by simp, tail ▸ digits⟩, rfl⟩, rfl, by simp⟩

theorem spells_scientific (some : decimal.digits ≠ 0)
    : Spells decimal.scientific decimal.value := by
  have point := decimal.point_eq
  have whole := isWhole_take some Nat.one_pos [] (by simp)
  rw [List.append_nil] at whole
  obtain ⟨fraction, isFraction, behind, same⟩ := decimal.exists_scientific_eq
  refine ⟨_, fraction, _, whole, isFraction, .inr ⟨_, _, ?_, (isWhole_toDigits _).isRun, rfl⟩,
    same, ?_⟩
  · split
    · exact .inr rfl
    · exact .inl rfl
  · have length := List.length_pos_of_ne_nil decimal.isRun_digitText.some
    rw [@ofParts_eq decimal]
    · rw [behind, List.take_append_drop, decimal.ofDigitChars_digitText]
    · rw [exponentOf_signed, behind, List.length_drop]
      omega

end Layout

end LetLang.Decimal

namespace LetLang.Binary64

open LetLang.Decimal (Spells)

-----------------------------------------------------------------------------------------
-- The text of a number
-----------------------------------------------------------------------------------------

/-- The text of a finite magnitude spells a decimal that rounds to it. -/
theorem exists_spells_jsonMagnitude {magnitude : Nat} (finite : magnitude < infinity)
    : ∃ decimal : Decimal,
        decimal.magnitude = magnitude ∧ Spells (jsonMagnitude magnitude) decimal.value := by
  unfold jsonMagnitude
  split
  · next zero =>
    subst zero
    exact ⟨.ofParts ['0'] ['.', '0'] [], rfl, _, _, _, .inl rfl,
      .inr ⟨['0'], ⟨by simp, by simp⟩, rfl⟩, .inl rfl, rfl, rfl⟩
  · next some =>
    have rounds := Decimal.magnitude_shortest finite .even
    have digits := Decimal.digits_ne_zero (rounds.symm ▸ some)
    refine ⟨_, rounds, ?_⟩
    simp only
    split
    · exact Decimal.spells_positional digits
    · exact Decimal.spells_scientific digits

theorem eq_of_jsonMagnitude_eq {left right : Nat} (finite : left < infinity)
    (alsoFinite : right < infinity) (same : jsonMagnitude left = jsonMagnitude right)
    : left = right := by
  obtain ⟨decimal, rfl, spells⟩ := exists_spells_jsonMagnitude finite
  obtain ⟨other, rfl, alsoSpells⟩ := exists_spells_jsonMagnitude alsoFinite
  exact Decimal.magnitude_congr (spells.unique (same ▸ alsoSpells))

/-- A number is made up of its sign and its magnitude. -/
theorem eq_of_magnitude_eq {left right : Binary64} (sign : left.isNegative = right.isNegative)
    (same : left.magnitude = right.magnitude)
    : left = right := by
  have weight : signWeight = 2 ^ 63 := rfl
  have size := left.bits.toNat_lt
  have size' := right.bits.toNat_lt
  rw [isNegative, isNegative, decide_eq_decide] at sign
  rw [magnitude, magnitude] at same
  have bits : left.bits.toNat = right.bits.toNat := by
    rw [weight] at sign same
    omega
  cases left
  cases right
  exact congrArg mk (UInt64.toNat_inj.mp bits)

theorem magnitude_lt_infinity {number : Binary64} (finite : number.isFinite = true)
    : number.magnitude < infinity :=
  of_decide_eq_true finite

theorem isLiteral_jsonText {number : Binary64} {text : String}
    (found : number.jsonText? = some text)
    : Json.IsLiteral text.toList := by
  unfold jsonText? at found
  split at found
  · next finite =>
    obtain ⟨decimal, _, spells⟩ := exists_spells_jsonMagnitude (magnitude_lt_infinity finite)
    rw [← Option.some.inj found, signed, String.toList_ofList]
    split
    · exact spells.isLiteral (.inr rfl)
    · exact spells.isLiteral (.inl rfl)
  · cases found

/-- A finite number is determined by its text, the sign of a zero included. -/
theorem eq_of_jsonText?_eq {left right : Binary64} (finite : left.isFinite = true)
    (alsoFinite : right.isFinite = true) (same : left.jsonText? = right.jsonText?)
    : left = right := by
  have below := magnitude_lt_infinity finite
  have below' := magnitude_lt_infinity alsoFinite
  obtain ⟨decimal, _, spells⟩ := exists_spells_jsonMagnitude below
  obtain ⟨other, _, alsoSpells⟩ := exists_spells_jsonMagnitude below'
  rw [jsonText?, jsonText?, if_pos finite, if_pos alsoFinite, Option.some.injEq, signed, signed,
    String.ofList_inj] at same
  cases sign : left.isNegative <;> cases sign' : right.isNegative <;>
    rw [sign, sign'] at same
  · exact eq_of_magnitude_eq (sign.trans sign'.symm) (eq_of_jsonMagnitude_eq below below' same)
  · exact absurd same (spells.ne_sign_cons _)
  · exact absurd same.symm (alsoSpells.ne_sign_cons _)
  · exact eq_of_magnitude_eq (sign.trans sign'.symm)
      (eq_of_jsonMagnitude_eq below below' (List.cons.inj same).2)

end LetLang.Binary64

import LetLang.Proofs.Number.Whole
import Mathlib.Algebra.Order.Field.Rat
import Mathlib.Algebra.Order.Group.Abs
import Mathlib.Data.Rat.Cast.Order
import Mathlib.Tactic.FieldSimp
import Mathlib.Tactic.Linarith
import Mathlib.Tactic.NormNum
import Mathlib.Tactic.Positivity
import Mathlib.Tactic.Ring

/-! Rounding. The values of the magnitudes grow with the magnitudes, and the magnitude that is
nearest to a quotient, ties going to the even one, depends on the value of the quotient only. It
grows with that value, and the value of a magnitude is rounded to the magnitude itself. Infinity
takes the place of the first power of two that is too great, so a natural overflows from half way
between the greatest finite value and that power on.
-/

namespace LetLang.Binary64

/-- The value of a magnitude. That of infinity is the least power of two above all finite values.
-/
def magnitudeValue (magnitude : Nat) : ℚ :=
  numerator magnitude / denominator magnitude

/-- The value of a finite number. -/
def value (number : Binary64) : ℚ :=
  if number.isNegative then
    -magnitudeValue number.magnitude
  else
    magnitudeValue number.magnitude

-----------------------------------------------------------------------------------------
-- Values of magnitudes
-----------------------------------------------------------------------------------------

/-- A power with an exponent of either sign as a quotient. -/
theorem zpow_eq_div (base : ℚ) (exponent : Int)
    : base ^ exponent = base ^ exponent.toNat / base ^ (-exponent).toNat := by
  rcases Int.le_total 0 exponent with up | down
  · have none : (-exponent).toNat = 0 := by omega
    rw [none, pow_zero, div_one, ← zpow_natCast, Int.toNat_of_nonneg up]
  · have none : exponent.toNat = 0 := by omega
    rw [none, pow_zero, one_div, ← zpow_natCast, ← zpow_neg, Int.toNat_of_nonneg (by omega),
      neg_neg]

theorem magnitudeValue_eq (magnitude : Nat)
    : magnitudeValue magnitude = significand magnitude * 2 ^ scale magnitude := by
  rw [magnitudeValue, numerator, denominator, Nat.shiftLeft_eq, Nat.shiftLeft_eq,
    zpow_eq_div]
  push_cast
  ring

/-- Within a field, magnitudes count units of the last place. This also holds for the first
magnitude of the next field.
-/
theorem magnitudeValue_grid {field factor : Nat} (upper : factor ≤ 2 ^ 53)
    (full : field = 0 ∨ 2 ^ 52 ≤ factor)
    : magnitudeValue (field * exponentWeight + factor) = factor * 2 ^ ((field : Int) - 1074) := by
  have fieldOf : exponentField (field * exponentWeight + factor) = field + factor / 2 ^ 52 := by
    simp only [exponentField, exponentWeight_eq]
    omega
  have rest : (field * exponentWeight + factor) % exponentWeight = factor % 2 ^ 52 := by
    simp only [exponentWeight_eq]
    omega
  rw [magnitudeValue_eq, significand, scale, fieldOf, rest, exponentWeight_eq]
  rcases Nat.eq_or_lt_of_le upper with rfl | short
  · -- A carry out of the significand doubles the power of two.
    have next : ((max (field + 2 ^ 53 / 2 ^ 52) 1 : Nat) : Int) - 1075
        = (field : Int) - 1074 + 1 := by omega
    rw [if_neg (by omega), next, zpow_add_one₀ two_ne_zero]
    push_cast
    ring
  · by_cases small : factor < 2 ^ 52
    · obtain rfl : field = 0 := by omega
      have none : factor / 2 ^ 52 = 0 := Nat.div_eq_of_lt small
      rw [none, Nat.mod_eq_of_lt small]
      norm_num
    · have same : 2 ^ 52 + factor % 2 ^ 52 = factor := by omega
      have next : ((max (field + factor / 2 ^ 52) 1 : Nat) : Int) - 1075
          = (field : Int) - 1074 := by
        omega
      rw [if_neg (by omega), same, next]

theorem exists_grid (magnitude : Nat)
    : ∃ field factor,
        factor < 2 ^ 53
        ∧ (field = 0 ∨ 2 ^ 52 ≤ factor)
        ∧ magnitude = field * exponentWeight + factor := by
  rw [exponentWeight_eq]
  refine ⟨magnitude / 2 ^ 52 - 1, magnitude - (magnitude / 2 ^ 52 - 1) * 2 ^ 52, ?_, ?_, ?_⟩ <;>
    omega

theorem magnitudeValue_strictMono : StrictMono magnitudeValue := by
  refine strictMono_nat_of_lt_succ fun magnitude => ?_
  obtain ⟨field, factor, upper, full, rfl⟩ := exists_grid magnitude
  rw [Nat.add_assoc, magnitudeValue_grid (by omega) full, magnitudeValue_grid (by omega) (by omega)]
  have unit : (0 : ℚ) < 2 ^ ((field : Int) - 1074) := zpow_pos two_pos _
  push_cast
  linarith

theorem magnitudeValue_zero : magnitudeValue 0 = 0 := by
  have grid := @magnitudeValue_grid 0 0 (by decide) (.inl rfl)
  simpa using grid

theorem magnitudeValue_nonneg (magnitude : Nat) : 0 ≤ magnitudeValue magnitude := by
  rw [← magnitudeValue_zero]
  exact magnitudeValue_strictMono.monotone (Nat.zero_le _)

-----------------------------------------------------------------------------------------
-- The nearest magnitude
-----------------------------------------------------------------------------------------

/-- No magnitude has a value nearer to `exact`, and one that has an equally near neighbour is
even.
-/
structure IsNearest (magnitude : Nat) (exact : ℚ) : Prop where
  closest : ∀ other, |magnitudeValue magnitude - exact| ≤ |magnitudeValue other - exact|
  even
    : ∀ other,
        other ≠ magnitude
        → |magnitudeValue magnitude - exact| = |magnitudeValue other - exact|
        → magnitude % 2 = 0

section Nearest

variable {exact low high : ℚ} {magnitude other : Nat}

theorem abs_sub_le_iff_of_lt (less : low < high)
    : |low - exact| ≤ |high - exact| ↔ 2 * exact ≤ low + high := by
  constructor
  · intro closer
    by_contra above
    rw [not_le] at above
    rw [abs_of_neg (by linarith : low - exact < 0)] at closer
    rcases abs_cases (high - exact) with ⟨same, _⟩ | ⟨same, _⟩ <;> linarith
  · intro below
    rw [abs_of_pos (by linarith : 0 < high - exact)]
    exact abs_le.mpr ⟨by linarith, by linarith⟩

theorem abs_sub_le_iff_of_gt (less : low < high)
    : |high - exact| ≤ |low - exact| ↔ low + high ≤ 2 * exact := by
  have mirrored := @abs_sub_le_iff_of_lt (-exact) (-high) (-low) (neg_lt_neg less)
  rw [← neg_sub', ← neg_sub', abs_neg, abs_neg] at mirrored
  rw [mirrored]
  constructor <;> intro bound <;> linarith

theorem IsNearest.le_of_lt (nearest : IsNearest magnitude exact) (above : magnitude < other)
    : 2 * exact ≤ magnitudeValue magnitude + magnitudeValue other :=
  (abs_sub_le_iff_of_lt (magnitudeValue_strictMono above)).mp (nearest.closest other)

theorem IsNearest.le_of_gt (nearest : IsNearest magnitude exact) (below : other < magnitude)
    : magnitudeValue other + magnitudeValue magnitude ≤ 2 * exact :=
  (abs_sub_le_iff_of_gt (magnitudeValue_strictMono below)).mp (nearest.closest other)

/-- Only the neighbours can be as near, and then the magnitude is even. -/
theorem IsNearest.of_neighbours
    (above : 2 * exact ≤ magnitudeValue magnitude + magnitudeValue (magnitude + 1))
    (below : 0 < magnitude
      → magnitudeValue (magnitude - 1) + magnitudeValue magnitude ≤ 2 * exact)
    (even : magnitude % 2 = 1
      → 2 * exact ≠ magnitudeValue magnitude + magnitudeValue (magnitude + 1)
        ∧ 2 * exact ≠ magnitudeValue (magnitude - 1) + magnitudeValue magnitude)
    : IsNearest magnitude exact := by
  have mono := magnitudeValue_strictMono.monotone
  have right (other : Nat) (greater : magnitude < other)
      : 2 * exact ≤ magnitudeValue magnitude + magnitudeValue other := by
    have := mono (Nat.succ_le_of_lt greater)
    linarith
  have left (other : Nat) (less : other < magnitude)
      : magnitudeValue other + magnitudeValue magnitude ≤ 2 * exact := by
    have := mono (Nat.le_sub_one_of_lt less)
    linarith [below (by omega)]
  constructor
  · intro other
    rcases Nat.lt_trichotomy other magnitude with less | rfl | greater
    · exact (abs_sub_le_iff_of_gt (magnitudeValue_strictMono less)).mpr (left other less)
    · exact le_refl _
    · exact (abs_sub_le_iff_of_lt (magnitudeValue_strictMono greater)).mpr (right other greater)
  · intro other different tie
    by_contra odd
    obtain ⟨notAbove, notBelow⟩ := even (by omega)
    rcases Nat.lt_or_gt_of_ne different with less | greater
    · have back := (abs_sub_le_iff_of_lt (magnitudeValue_strictMono less)).mp (le_of_eq tie.symm)
      have := mono (Nat.le_sub_one_of_lt less)
      exact notBelow (le_antisymm (by linarith) (below (by omega)))
    · have back := (abs_sub_le_iff_of_gt (magnitudeValue_strictMono greater)).mp (le_of_eq tie.symm)
      have := mono (Nat.succ_le_of_lt greater)
      exact notAbove (le_antisymm above (by linarith))

/-- Of the two magnitudes around a value, the lower one is nearest up to half way. -/
theorem isNearest_of_half_above (lower : magnitudeValue magnitude ≤ exact)
    (half : 2 * exact ≤ magnitudeValue magnitude + magnitudeValue (magnitude + 1))
    (even : 2 * exact = magnitudeValue magnitude + magnitudeValue (magnitude + 1)
      → magnitude % 2 = 0)
    : IsNearest magnitude exact := by
  have strict (positive : 0 < magnitude)
      : magnitudeValue (magnitude - 1) < magnitudeValue magnitude :=
    magnitudeValue_strictMono (Nat.sub_lt positive Nat.one_pos)
  refine .of_neighbours half (fun positive => by linarith [strict positive]) fun odd => ⟨?_, ?_⟩
  · intro tie
    have := even tie
    omega
  · have := strict (by omega)
    exact ne_of_gt (by linarith)

/-- Of the two magnitudes around a value, the upper one is nearest from half way on. -/
theorem isNearest_of_half_below (upper : exact < magnitudeValue (magnitude + 1))
    (half : magnitudeValue magnitude + magnitudeValue (magnitude + 1) ≤ 2 * exact)
    (odd : 2 * exact = magnitudeValue magnitude + magnitudeValue (magnitude + 1)
      → magnitude % 2 = 1)
    : IsNearest (magnitude + 1) exact := by
  have strict := magnitudeValue_strictMono (Nat.lt_succ_self (magnitude + 1))
  rw [Nat.succ_eq_add_one] at strict
  refine .of_neighbours (by linarith) (fun _ => half) fun even => ⟨?_, ?_⟩
  · exact ne_of_lt (by linarith)
  · intro tie
    have := odd tie
    omega

/-- The value of a magnitude is rounded to the magnitude. -/
theorem isNearest_self (magnitude : Nat) : IsNearest magnitude (magnitudeValue magnitude) := by
  constructor
  · intro other
    rw [sub_self, abs_zero]
    exact abs_nonneg _
  · intro other different tie
    rw [sub_self, abs_zero, eq_comm, abs_eq_zero, sub_eq_zero] at tie
    exact absurd (magnitudeValue_strictMono.injective tie) different

theorem IsNearest.le_of_le {left right : Nat} {leftExact rightExact : ℚ}
    (nearest : IsNearest left leftExact) (alsoNearest : IsNearest right rightExact)
    (le : leftExact ≤ rightExact)
    : left ≤ right := by
  by_contra greater
  rw [not_le] at greater
  have lower := nearest.le_of_gt greater
  have upper := alsoNearest.le_of_lt greater
  -- Both exact values are half way between the two, so both magnitudes are even.
  have same : leftExact = rightExact := le_antisymm le (by linarith)
  subst same
  have values := magnitudeValue_strictMono greater
  have tie : |magnitudeValue left - leftExact| = |magnitudeValue right - leftExact| :=
    le_antisymm (nearest.closest right) (alsoNearest.closest left)
  have leftEven := nearest.even right (Nat.ne_of_lt greater) tie
  have rightEven := alsoNearest.even left (Nat.ne_of_gt greater) tie.symm
  have between : right + 1 < left := by omega
  have closer := nearest.le_of_gt between
  have strict := @magnitudeValue_strictMono right (right + 1) (Nat.lt_succ_self _)
  linarith

theorem IsNearest.unique (nearest : IsNearest magnitude exact)
    (alsoNearest : IsNearest other exact)
    : magnitude = other :=
  Nat.le_antisymm (nearest.le_of_le alsoNearest (le_refl _))
    (alsoNearest.le_of_le nearest (le_refl _))

end Nearest

-----------------------------------------------------------------------------------------
-- Rounding of quotients
-----------------------------------------------------------------------------------------

section Quotients

variable {dividend divisor : Nat}

/-- A quotient is rounded down up to half way between two naturals and up from there on, and at
half way to the even one.
-/
theorem roundedQuotient_cases (positive : 0 < divisor)
    : let quotient := dividend / divisor
      roundedQuotient dividend divisor = quotient
        ∧ 2 * ((dividend : ℚ) / divisor) ≤ 2 * quotient + 1
        ∧ (2 * ((dividend : ℚ) / divisor) = 2 * quotient + 1 → quotient % 2 = 0)
      ∨ roundedQuotient dividend divisor = quotient + 1
        ∧ 2 * (quotient : ℚ) + 1 ≤ 2 * (dividend / divisor)
        ∧ (2 * ((dividend : ℚ) / divisor) = 2 * quotient + 1 → quotient % 2 = 1) := by
  intro quotient
  have some : (0 : ℚ) < divisor := Nat.cast_pos.mpr positive
  have parts : divisor * quotient + dividend % divisor = dividend := Nat.div_add_mod _ _
  have exact : (dividend : ℚ) = divisor * quotient + (dividend % divisor : Nat) := by
    exact_mod_cast parts.symm
  -- Twice the quotient against its lower neighbour is twice the remainder against the divisor.
  have le : 2 * ((dividend : ℚ) / divisor) ≤ 2 * quotient + 1
      ↔ 2 * (dividend % divisor) ≤ divisor := by
    rw [← mul_div_assoc, div_le_iff₀ some, exact, ← @Nat.cast_le ℚ]
    push_cast
    constructor <;> intro bound <;> linarith
  have ge : 2 * (quotient : ℚ) + 1 ≤ 2 * (dividend / divisor)
      ↔ divisor ≤ 2 * (dividend % divisor) := by
    rw [← mul_div_assoc, le_div_iff₀ some, exact, ← @Nat.cast_le ℚ]
    push_cast
    constructor <;> intro bound <;> linarith
  have tie : 2 * ((dividend : ℚ) / divisor) = 2 * quotient + 1
      ↔ divisor = 2 * (dividend % divisor) := by
    rw [le_antisymm_iff, le, ge]
    omega
  have rule : roundedQuotient dividend divisor
      = if divisor < 2 * (dividend % divisor)
          ∨ divisor = 2 * (dividend % divisor) ∧ quotient % 2 = 1
        then quotient + 1 else quotient := rfl
  rw [le, ge, tie, rule]
  split <;> omega

/-- A quotient lies below a power of two if it does so with its terms shifted. -/
theorem shifted_lt_iff (positive : 0 < divisor) (exponent : Int)
    : dividend <<< (-exponent).toNat < divisor <<< exponent.toNat
      ↔ (dividend : ℚ) / divisor < 2 ^ exponent := by
  have some : (0 : ℚ) < divisor := Nat.cast_pos.mpr positive
  have power : (0 : ℚ) < 2 ^ (-exponent).toNat := pow_pos two_pos _
  rw [Nat.shiftLeft_eq, Nat.shiftLeft_eq, zpow_eq_div, div_lt_div_iff₀ some power,
    ← @Nat.cast_lt ℚ]
  push_cast
  rw [mul_comm (divisor : ℚ)]

theorem shifted_ratio (dividend divisor : Nat) (exponent : Int)
    : ((dividend <<< (-exponent).toNat : Nat) : ℚ) / (divisor <<< exponent.toNat : Nat)
      = dividend / divisor / 2 ^ exponent := by
  rw [Nat.shiftLeft_eq, Nat.shiftLeft_eq, zpow_eq_div]
  push_cast
  rw [div_div_eq_mul_div, div_mul_eq_mul_div, div_div, mul_comm (divisor : ℚ)]

theorem binaryOrder_spec (some : 0 < dividend) (positive : 0 < divisor)
    : (2 : ℚ) ^ binaryOrder dividend divisor ≤ dividend / divisor
      ∧ (dividend : ℚ) / divisor < 2 ^ (binaryOrder dividend divisor + 1) := by
  have divisorPositive : (0 : ℚ) < divisor := Nat.cast_pos.mpr positive
  have logs (value : Nat) (nonzero : 0 < value)
      : (2 : ℚ) ^ (value.log2 : Int) ≤ value ∧ (value : ℚ) < 2 ^ ((value.log2 : Int) + 1) := by
    obtain ⟨lower, upper⟩ := (Nat.log2_eq_iff (Nat.ne_of_gt nonzero)).mp rfl
    refine ⟨by exact_mod_cast lower, by exact_mod_cast upper⟩
  obtain ⟨above, below⟩ := logs dividend some
  obtain ⟨divisorAbove, divisorBelow⟩ := logs divisor positive
  have shift := @shifted_lt_iff dividend divisor positive (dividend.log2 - divisor.log2)
  unfold binaryOrder
  simp only [shift]
  split
  · next less =>
      refine ⟨?_, by simpa using less⟩
      rw [le_div_iff₀ divisorPositive]
      calc (2 : ℚ) ^ ((dividend.log2 : Int) - divisor.log2 - 1) * divisor
          ≤ 2 ^ ((dividend.log2 : Int) - divisor.log2 - 1) * 2 ^ ((divisor.log2 : Int) + 1) := by
            exact mul_le_mul_of_nonneg_left (le_of_lt divisorBelow) (zpow_nonneg (by norm_num) _)
        _ = 2 ^ (dividend.log2 : Int) := by
            rw [← zpow_add₀ two_ne_zero]
            congr 1
            omega
        _ ≤ dividend := above
  · next atLeast =>
      refine ⟨not_lt.mp atLeast, ?_⟩
      rw [div_lt_iff₀ divisorPositive]
      calc (dividend : ℚ) < 2 ^ ((dividend.log2 : Int) + 1) := below
        _ = 2 ^ ((dividend.log2 : Int) - divisor.log2 + 1) * 2 ^ (divisor.log2 : Int) := by
            rw [← zpow_add₀ two_ne_zero]
            congr 1
            omega
        _ ≤ 2 ^ ((dividend.log2 : Int) - divisor.log2 + 1) * divisor := by
            exact mul_le_mul_of_nonneg_left divisorAbove (zpow_nonneg (by norm_num) _)

/-- A rounded quotient that is a full significand gives the nearest magnitude of its field. -/
theorem isNearest_grid {field : Nat} (positive : 0 < divisor)
    (upper : dividend / divisor < 2 ^ 53) (full : field = 0 ∨ 2 ^ 52 ≤ dividend / divisor)
    : IsNearest (field * exponentWeight + roundedQuotient dividend divisor)
        ((dividend : ℚ) / divisor * 2 ^ ((field : Int) - 1074)) := by
  have some : (0 : ℚ) < divisor := Nat.cast_pos.mpr positive
  have unit : (0 : ℚ) < 2 ^ ((field : Int) - 1074) := zpow_pos two_pos _
  have floor : ((dividend / divisor : Nat) : ℚ) ≤ dividend / divisor := by
    rw [le_div_iff₀ some]
    exact_mod_cast Nat.div_mul_le_self dividend divisor
  have ceiling : (dividend : ℚ) / divisor < (dividend / divisor : Nat) + 1 := by
    rw [div_lt_iff₀ some]
    exact_mod_cast Nat.lt_mul_of_div_lt (Nat.lt_succ_self _) positive
  have cases := @roundedQuotient_cases dividend divisor positive
  have here := magnitudeValue_grid (Nat.le_of_lt upper) full
  have next := magnitudeValue_grid (Nat.succ_le_of_lt upper) (full.imp_right Nat.le_succ_of_le)
  have parity : (field * exponentWeight + dividend / divisor) % 2 = dividend / divisor % 2 := by
    rw [exponentWeight_eq]
    omega
  simp only at cases
  rw [Nat.succ_eq_add_one, ← Nat.add_assoc, Nat.cast_succ] at next
  generalize dividend / divisor = quotient at *
  generalize (dividend : ℚ) / divisor = exact at *
  have half : magnitudeValue (field * exponentWeight + quotient)
        + magnitudeValue (field * exponentWeight + quotient + 1)
      = (2 * quotient + 1) * 2 ^ ((field : Int) - 1074) := by
    rw [here, next]
    ring
  rcases cases with ⟨rounded, below, even⟩ | ⟨rounded, above, odd⟩
  · rw [rounded]
    refine isNearest_of_half_above ?_ ?_ fun tie => ?_
    · rw [here]
      exact mul_le_mul_of_nonneg_right floor (le_of_lt unit)
    · rw [half, ← mul_assoc]
      exact mul_le_mul_of_nonneg_right below (le_of_lt unit)
    · rw [half, ← mul_assoc] at tie
      rw [parity]
      exact even (mul_right_cancel₀ (ne_of_gt unit) tie)
  · rw [rounded, ← Nat.add_assoc]
    refine isNearest_of_half_below ?_ ?_ fun tie => ?_
    · rw [next]
      exact mul_lt_mul_of_pos_right ceiling unit
    · rw [half, ← mul_assoc]
      exact mul_le_mul_of_nonneg_right above (le_of_lt unit)
    · rw [half, ← mul_assoc] at tie
      rw [parity]
      exact odd (mul_right_cancel₀ (ne_of_gt unit) tie)

/-- A quotient is rounded at its order, or at the least order of the format. -/
theorem isNearest_of_order {order : Int} (positive : 0 < divisor) (least : -1022 ≤ order)
    (below : (dividend : ℚ) / divisor < 2 ^ (order + 1))
    (above : order = -1022 ∨ 2 ^ order ≤ (dividend : ℚ) / divisor)
    : IsNearest
        ((order + 1022).toNat * exponentWeight
          + roundedQuotient (dividend <<< (-(order - 52)).toNat) (divisor <<< (order - 52).toNat))
        (dividend / divisor) := by
  have field : (((order + 1022).toNat : Nat) : Int) - 1074 = order - 52 := by omega
  have unit : (0 : ℚ) < 2 ^ (order - 52) := zpow_pos two_pos _
  have ratio := shifted_ratio dividend divisor (order - 52)
  have positive : 0 < divisor <<< (order - 52).toNat := by
    rw [Nat.shiftLeft_eq]
    exact Nat.mul_pos positive (Nat.two_pow_pos _)
  have some : (0 : ℚ) < (divisor <<< (order - 52).toNat : Nat) := Nat.cast_pos.mpr positive
  have exact : (dividend : ℚ) / divisor
      = ((dividend <<< (-(order - 52)).toNat : Nat) : ℚ) / (divisor <<< (order - 52).toNat : Nat)
        * 2 ^ ((((order + 1022).toNat : Nat) : Int) - 1074) := by
    rw [ratio, field, div_mul_cancel₀ _ (ne_of_gt unit)]
  have power (digits : Nat) : (2 : ℚ) ^ (order - 52 + digits) = 2 ^ digits * 2 ^ (order - 52) := by
    rw [zpow_add₀ two_ne_zero, zpow_natCast, mul_comm]
  rw [exact]
  refine isNearest_grid positive ?_ (above.imp (fun same => by omega) fun lower => ?_)
  · rw [Nat.div_lt_iff_lt_mul positive, ← @Nat.cast_lt ℚ, Nat.cast_mul, ← div_lt_iff₀ some, ratio,
      div_lt_iff₀ unit, Nat.cast_pow, Nat.cast_ofNat, ← power]
    exact lt_of_lt_of_le below (zpow_le_zpow_right₀ one_le_two (by omega))
  · rw [Nat.le_div_iff_mul_le positive, ← @Nat.cast_le ℚ, Nat.cast_mul, ← le_div_iff₀ some, ratio,
      le_div_iff₀ unit, Nat.cast_pow, Nat.cast_ofNat, ← power]
    exact le_trans (zpow_le_zpow_right₀ one_le_two (by omega)) lower

/-- The magnitude of a quotient is the nearest one, or infinity if that is less. -/
theorem exists_isNearest (dividend : Nat) (positive : 0 < divisor)
    : ∃ rounded,
        IsNearest rounded ((dividend : ℚ) / divisor)
        ∧ nearestMagnitude dividend divisor = min rounded infinity := by
  by_cases none : dividend = 0
  · have nearest := isNearest_self 0
    rw [magnitudeValue_zero] at nearest
    exact ⟨0, by simpa [none] using nearest, by simp [nearestMagnitude, none]⟩
  obtain ⟨above, below⟩ := binaryOrder_spec (Nat.pos_of_ne_zero none) positive
  have greatest : binaryOrder dividend divisor ≤ max (binaryOrder dividend divisor) (-1022) :=
    le_max_left _ _
  refine ⟨_, isNearest_of_order positive (le_max_right (binaryOrder dividend divisor) _) ?_ ?_,
    by rw [nearestMagnitude, if_neg none]⟩
  · exact lt_of_lt_of_le below (zpow_le_zpow_right₀ one_le_two (by omega))
  · rcases max_choice (binaryOrder dividend divisor) (-1022) with same | bound
    · exact .inr (by rwa [same])
    · exact .inl bound

/-- Equal quotients have the same nearest magnitude. -/
theorem nearestMagnitude_congr {dividend' divisor' : Nat} (positive : 0 < divisor)
    (alsoPositive : 0 < divisor')
    (same : (dividend : ℚ) / divisor = (dividend' : ℚ) / divisor')
    : nearestMagnitude dividend divisor = nearestMagnitude dividend' divisor' := by
  obtain ⟨rounded, nearest, left⟩ := exists_isNearest dividend positive
  obtain ⟨rounded', nearest', right⟩ := exists_isNearest dividend' alsoPositive
  rw [left, right, nearest.unique (same ▸ nearest')]

/-- The value of a finite magnitude is rounded to that magnitude. -/
theorem nearestMagnitude_of_value {magnitude : Nat} (finite : magnitude < infinity)
    (positive : 0 < divisor) (exact : (dividend : ℚ) / divisor = magnitudeValue magnitude)
    : nearestMagnitude dividend divisor = magnitude := by
  obtain ⟨rounded, nearest, same⟩ := exists_isNearest dividend positive
  rw [same, nearest.unique (exact ▸ isNearest_self magnitude),
    Nat.min_eq_left (Nat.le_of_lt finite)]

end Quotients

-----------------------------------------------------------------------------------------
-- Overflow
-----------------------------------------------------------------------------------------

/-- The least natural that is rounded to infinity: it lies half way between the greatest finite
value and the next power of two.
-/
def overflow : Nat := 2 ^ 1024 - 2 ^ 970

theorem magnitudeValue_last {factor : Nat} (upper : factor ≤ 2 ^ 53) (full : 2 ^ 52 ≤ factor)
    : magnitudeValue (2045 * exponentWeight + factor) = factor * 2 ^ 971 := by
  have order : ((2045 : Nat) : Int) - 1074 = (971 : Nat) := by norm_num
  rw [magnitudeValue_grid upper (.inr full), order, zpow_natCast]

/-- Half way between the greatest finite value and that of infinity. -/
theorem two_mul_overflow
    : 2 * (overflow : ℚ) = magnitudeValue (infinity - 1) + magnitudeValue infinity := by
  have last : infinity - 1 = 2045 * exponentWeight + (2 ^ 53 - 1) := by decide
  have next : infinity = 2045 * exponentWeight + 2 ^ 53 := by decide
  have limit : overflow = (2 ^ 54 - 1) * 2 ^ 970 := by
    rw [overflow, Nat.sub_mul, ← Nat.pow_add, Nat.one_mul]
  rw [last, next, magnitudeValue_last (by decide) (by decide),
    magnitudeValue_last (Nat.le_refl _) (by decide), limit, pow_succ (2 : ℚ) 970, Nat.cast_mul,
    Nat.cast_pow, Nat.cast_ofNat]
  generalize (2 : ℚ) ^ 970 = unit
  norm_num
  ring

theorem IsNearest.lt_infinity_iff {magnitude : Nat} {exact : ℚ}
    (nearest : IsNearest magnitude exact)
    : magnitude < infinity ↔ exact < overflow := by
  have half := two_mul_overflow
  have odd : (infinity - 1) % 2 = 1 := by decide
  have pred : infinity - 1 < infinity := by decide
  have mono := magnitudeValue_strictMono.monotone
  constructor
  · intro finite
    by_contra above
    rw [not_lt] at above
    have upper := nearest.le_of_lt finite
    have lower := mono (Nat.le_sub_one_of_lt finite)
    -- Then the magnitude is the greatest finite one and ties with infinity, but it is odd.
    have same : magnitudeValue magnitude = magnitudeValue (infinity - 1) :=
      le_antisymm lower (by linarith)
    obtain rfl := magnitudeValue_strictMono.injective same
    have tie := (abs_sub_le_iff_of_gt (magnitudeValue_strictMono pred)).mpr (by linarith)
    have even := nearest.even infinity (Nat.ne_of_gt pred)
      (le_antisymm (nearest.closest infinity) tie)
    omega
  · intro below
    by_contra infinite
    rw [not_lt] at infinite
    have lower := nearest.le_of_gt (Nat.lt_of_lt_of_le pred infinite)
    linarith [mono infinite]

theorem nearestMagnitude_lt_infinity_iff (dividend : Nat) {divisor : Nat} (positive : 0 < divisor)
    : nearestMagnitude dividend divisor < infinity ↔ (dividend : ℚ) / divisor < overflow := by
  obtain ⟨rounded, nearest, same⟩ := exists_isNearest dividend positive
  rw [same, ← nearest.lt_infinity_iff]
  omega

-----------------------------------------------------------------------------------------
-- Numbers of naturals
-----------------------------------------------------------------------------------------

/-- A finite number is as near to `exact` as any, and if another value is equally near, its
significand is even.
-/
structure Rounds (number : Binary64) (exact : ℚ) : Prop where
  finite : number.isFinite = true
  closest
    : ∀ other : Binary64, other.isFinite = true → |number.value - exact| ≤ |other.value - exact|
  even
    : ∀ other : Binary64,
        other.isFinite = true
        → other.value ≠ number.value
        → |number.value - exact| = |other.value - exact|
        → significand number.magnitude % 2 = 0

theorem significand_mod_two (magnitude : Nat) : significand magnitude % 2 = magnitude % 2 := by
  unfold significand
  rw [exponentWeight_eq]
  split <;> omega

theorem value_ofNat (whole : Nat)
    : (ofNat whole).value = magnitudeValue (nearestMagnitude whole 1) := by
  rw [value, isNegative_ofNat, magnitude_ofNat]
  rfl

theorem isFinite_ofNat_iff (whole : Nat) : (ofNat whole).isFinite = true ↔ whole < overflow := by
  have limit := nearestMagnitude_lt_infinity_iff whole Nat.one_pos
  rw [Nat.cast_one, div_one, Nat.cast_lt] at limit
  rw [isFinite, magnitude_ofNat, decide_eq_true_iff, limit]

theorem value_ofNat_le {less more : Nat} (le : less ≤ more)
    : (ofNat less).value ≤ (ofNat more).value := by
  obtain ⟨left, nearest, leftSame⟩ := exists_isNearest less Nat.one_pos
  obtain ⟨right, alsoNearest, rightSame⟩ := exists_isNearest more Nat.one_pos
  have order : left ≤ right := by
    refine nearest.le_of_le alsoNearest ?_
    rw [Nat.cast_one, div_one, div_one]
    exact_mod_cast le
  rw [value_ofNat, value_ofNat, leftSame, rightSame]
  exact magnitudeValue_strictMono.monotone (by omega)

/-- The number of a natural is a natural again. -/
theorem exists_value_ofNat {whole : Nat} (small : whole < overflow)
    : ∃ natural : Nat, (ofNat whole).value = natural := by
  have finite : nearestMagnitude whole 1 < infinity := by
    rw [nearestMagnitude_lt_infinity_iff whole Nat.one_pos, Nat.cast_one, div_one]
    exact_mod_cast small
  rw [value_ofNat]
  by_cases none : whole = 0
  · exact ⟨0, by simp [none, nearestMagnitude, magnitudeValue_zero]⟩
  · obtain ⟨natural, _, hasValue, _⟩ := exists_value none finite
    have positive := Decimal.denominator_pos (nearestMagnitude whole 1)
    refine ⟨natural, ?_⟩
    rw [magnitudeValue, hasValue, Nat.cast_mul, mul_div_cancel_right₀]
    exact Nat.cast_ne_zero.mpr (Nat.ne_of_gt positive)

theorem value_eq_or (number : Binary64)
    : number.value = magnitudeValue number.magnitude
      ∨ number.value = -magnitudeValue number.magnitude := by
  unfold value
  split
  · exact .inr rfl
  · exact .inl rfl

/-- A number is no nearer to a natural than the one without its sign. -/
theorem abs_magnitudeValue_sub_le (number : Binary64) (whole : Nat)
    : |magnitudeValue number.magnitude - whole| ≤ |number.value - whole| := by
  have positive : (0 : ℚ) ≤ whole := Nat.cast_nonneg whole
  have some := magnitudeValue_nonneg number.magnitude
  rcases number.value_eq_or with same | mirrored
  · rw [same]
  · rw [mirrored, abs_of_nonpos (by linarith : -magnitudeValue number.magnitude - (whole : ℚ) ≤ 0)]
    exact abs_le.mpr ⟨by linarith, by linarith⟩

/-- The number of a natural below the limit is the nearest one. -/
theorem rounds_ofNat {whole : Nat} (small : whole < overflow) : (ofNat whole).Rounds whole := by
  obtain ⟨rounded, nearest, same⟩ := exists_isNearest whole Nat.one_pos
  rw [Nat.cast_one, div_one] at nearest
  have below : rounded < infinity := by
    rw [nearest.lt_infinity_iff]
    exact_mod_cast small
  rw [Nat.min_eq_left (Nat.le_of_lt below)] at same
  have value : (ofNat whole).value = magnitudeValue rounded := by rw [value_ofNat, same]
  refine ⟨(isFinite_ofNat_iff whole).mpr small, fun other _ => ?_, fun other _ different tie => ?_⟩
  · rw [value]
    exact (nearest.closest other.magnitude).trans (abs_magnitudeValue_sub_le other whole)
  rw [significand_mod_two, magnitude_ofNat, same]
  rw [value] at tie different
  by_cases mirrored : other.magnitude = rounded
  · -- Then the two differ in their sign only, so they are equally near to zero alone.
    have opposite : other.value = -magnitudeValue rounded := by
      rw [← mirrored]
      exact other.value_eq_or.resolve_left fun equal => different (by rw [equal, mirrored])
    rw [opposite] at tie different
    have some := magnitudeValue_nonneg rounded
    have apart : -magnitudeValue rounded < magnitudeValue rounded := by
      rcases lt_or_eq_of_le some with positive | none
      · linarith
      · rw [← none, neg_zero] at different
        exact absurd rfl different
    have none := (abs_sub_le_iff_of_lt apart).mp (le_of_eq tie.symm)
    have zero : (whole : ℚ) = magnitudeValue 0 := by
      rw [magnitudeValue_zero]
      exact le_antisymm (by linarith) (Nat.cast_nonneg whole)
    rw [nearest.unique (zero ▸ isNearest_self 0)]
  · exact nearest.even _ mirrored (le_antisymm (nearest.closest _)
      ((abs_magnitudeValue_sub_le other whole).trans (le_of_eq tie.symm)))

end LetLang.Binary64

import LetLang.Number.Binary64

/-! The shortest decimal of a number: among the decimals that round to the number, one with the
fewest digits, and among those the nearest one.
-/

namespace LetLang

/-- The value `digits * 10 ^ exponent`. -/
structure Decimal where
  digits : Nat
  exponent : Int
  deriving DecidableEq

namespace Decimal

/-- Which of two equally near decimals is taken. -/
inductive Tie where
  | up
  | even
  deriving DecidableEq

/-- The magnitude that a decimal rounds to. -/
def magnitude (decimal : Decimal) : Nat :=
  Binary64.nearestMagnitude (decimal.digits * Nat.pow 10 decimal.exponent.toNat)
    (Nat.pow 10 (-decimal.exponent).toNat)

/-- Moves the zeros at the end of the digits into the exponent. -/
def withoutTrailingZeros (digits : Nat) (exponent : Int) : Decimal :=
  if digits % 10 = 0 ∧ digits ≠ 0 then
    withoutTrailingZeros (digits / 10) (exponent + 1)
  else
    ⟨digits, exponent⟩
termination_by digits
decreasing_by omega

/-- The exponent of the greatest power of ten that is not above the quotient of two positive
naturals.
-/
def order (dividend divisor : Nat) : Int :=
  if divisor ≤ dividend then
    (Nat.toDigits 10 (dividend / divisor)).length - 1
  else
    let count := (Nat.toDigits 10 (divisor / dividend)).length
    if divisor ≤ dividend * Nat.pow 10 (count - 1) then 1 - count else -count

/-- The decimal whose digits count tens to the `exponent` and that rounds to `magnitude`. Only
the two neighbours of the value can be the nearest such decimal.
-/
def onGrid? (tie : Tie) (magnitude : Nat) (exponent : Int) : Option Decimal :=
  -- The value is `dividend / divisor` units of the grid.
  let dividend := Binary64.numerator magnitude * Nat.pow 10 (-exponent).toNat
  let divisor := Binary64.denominator magnitude * Nat.pow 10 exponent.toNat
  let below : Decimal := ⟨dividend / divisor, exponent⟩
  let above : Decimal := ⟨dividend / divisor + 1, exponent⟩
  let twice := 2 * (dividend % divisor)
  let belowFirst := twice < divisor ∨ twice = divisor ∧ tie = .even ∧ below.digits % 2 = 0
  if below.magnitude = magnitude ∧ (belowFirst ∨ above.magnitude ≠ magnitude) then
    some below
  else if above.magnitude = magnitude then
    some above
  else
    none

/-- The value of a finite magnitude with all its digits. -/
def exact (magnitude : Nat) : Decimal :=
  let scale := Binary64.scale magnitude
  ⟨(Binary64.significand magnitude <<< scale.toNat) * Nat.pow 5 (-scale).toNat, min scale 0⟩

/-- The shortest decimal of a finite magnitude other than zero. Seventeen digits tell any two
numbers apart.
-/
def shortest (tie : Tie) (magnitude : Nat) : Decimal :=
  let order := order (Binary64.numerator magnitude) (Binary64.denominator magnitude)
  let found :=
    (List.range' 1 17).findSome? fun (count : Nat) => onGrid? tie magnitude (order + 1 - count)
  let decimal := found.getD (exact magnitude)
  withoutTrailingZeros decimal.digits decimal.exponent

end Decimal

end LetLang

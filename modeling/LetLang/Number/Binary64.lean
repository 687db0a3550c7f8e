/-! Numbers of the 64-bit binary floating-point format, kept as their bits. Exact rational
values are rounded to the nearest number of the format, ties going to the even significand.
-/

namespace LetLang

/-- A number of the 64-bit binary format. Two numbers are equal in this type when they have
the same bits.
-/
structure Binary64 where
  bits : UInt64
  deriving DecidableEq

namespace Binary64

/-- The weight of the sign in the bits. -/
def signWeight : Nat := 1 <<< 63

/-- The weight of the exponent field in the bits. A significand of full length has its first
digit at this weight.
-/
def exponentWeight : Nat := 1 <<< 52

/-- Whether the sign is negative. -/
def isNegative (number : Binary64) : Bool :=
  decide (signWeight ≤ number.bits.toNat)

/-- The bits below the sign. They order the numbers by their distance from zero. -/
def magnitude (number : Binary64) : Nat :=
  number.bits.toNat % signWeight

/-- The magnitude of infinity. -/
def infinity : Nat := 2047 * exponentWeight

/-- Neither infinite nor a NaN. -/
def isFinite (number : Binary64) : Bool :=
  decide (number.magnitude < infinity)

/-- Not a number at all. -/
def isNaN (number : Binary64) : Bool :=
  decide (infinity < number.magnitude)

/-- Equality of values: a NaN differs from everything, and the two zeros are equal. -/
def equal (left right : Binary64) : Bool :=
  !left.isNaN && !right.isNaN
    && (left.bits == right.bits || left.magnitude == 0 && right.magnitude == 0)

/-- The biased exponent. -/
def exponentField (magnitude : Nat) : Nat :=
  magnitude / exponentWeight

/-- The factor before the power of two in the value of a finite magnitude. -/
def significand (magnitude : Nat) : Nat :=
  if exponentField magnitude = 0 then
    magnitude % exponentWeight
  else
    exponentWeight + magnitude % exponentWeight

/-- The exponent of the power of two in the value of a finite magnitude. -/
def scale (magnitude : Nat) : Int :=
  (max (exponentField magnitude) 1 : Nat) - 1075

/-- The numerator of the value of a finite magnitude. -/
def numerator (magnitude : Nat) : Nat :=
  significand magnitude <<< (scale magnitude).toNat

/-- The denominator of the value of a finite magnitude. -/
def denominator (magnitude : Nat) : Nat :=
  1 <<< (-scale magnitude).toNat

/-- The quotient of two naturals rounded to the nearest natural, ties to even. -/
def roundedQuotient (dividend divisor : Nat) : Nat :=
  let quotient := dividend / divisor
  let twice := 2 * (dividend % divisor)
  if divisor < twice ∨ divisor = twice ∧ quotient % 2 = 1 then quotient + 1 else quotient

/-- The exponent of the greatest power of two that is not above the quotient of two positive
naturals.
-/
def binaryOrder (dividend divisor : Nat) : Int :=
  let guess : Int := dividend.log2 - divisor.log2
  if dividend <<< (-guess).toNat < divisor <<< guess.toNat then guess - 1 else guess

/-- The magnitude nearest to the quotient of two naturals. The significand is rounded at the
order of the quotient, or at the least order of the format when that is greater; a carry out of
the significand goes into the exponent field.
-/
def nearestMagnitude (dividend divisor : Nat) : Nat :=
  if dividend = 0 then
    0
  else
    let order := max (binaryOrder dividend divisor) (-1022)
    -- One unit of the last place is two to the power `unit`.
    let unit := order - 52
    let rounded :=
      roundedQuotient (dividend <<< (-unit).toNat) (divisor <<< unit.toNat)
    -- The first digit of `rounded` adds one to the exponent field, unless it is subnormal.
    min ((order + 1022).toNat * exponentWeight + rounded) infinity

/-- The number of the given magnitude that is not negative. -/
def ofMagnitude (magnitude : Nat) : Binary64 :=
  ⟨UInt64.ofNat magnitude⟩

/-- The number nearest to a natural. -/
def ofNat (value : Nat) : Binary64 :=
  ofMagnitude (nearestMagnitude value 1)

end Binary64

end LetLang

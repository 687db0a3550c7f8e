import LetLang.Number.Shortest

/-! Texts of numbers. In source text a number has no exponent part; in JSON text a number of
great or small order has one, and every number shows that it is not an integer.
-/

namespace LetLang

namespace Decimal

/-- The digits of a decimal, first digit first. -/
def digitText (decimal : Decimal) : List Char :=
  Nat.toDigits 10 decimal.digits

/-- How many digits stand before the point. -/
def point (decimal : Decimal) : Int :=
  decimal.digitText.length + decimal.exponent

/-- A decimal written without an exponent part. A whole number is followed by `whole`. -/
def positional (whole : List Char) (decimal : Decimal) : List Char :=
  let text := decimal.digitText
  let point := decimal.point
  if point ≤ 0 then
    '0' :: '.' :: (List.replicate (-point).toNat '0' ++ text)
  else if (text.length : Int) ≤ point then
    text ++ List.replicate (point.toNat - text.length) '0' ++ whole
  else
    text.take point.toNat ++ '.' :: text.drop point.toNat

/-- A decimal written with one digit before the point and an exponent part. -/
def scientific (decimal : Decimal) : List Char :=
  let exponent := decimal.point - 1
  let sign := if exponent < 0 then '-' else '+'
  let fraction :=
    match decimal.digitText.drop 1 with
    | [] => []
    | rest => '.' :: rest
  decimal.digitText.take 1 ++ fraction ++ 'e' :: sign :: Nat.toDigits 10 exponent.natAbs

end Decimal

namespace Binary64

/-- Puts the sign of a number before the text of its magnitude. -/
def signed (number : Binary64) (text : List Char) : String :=
  String.ofList (if number.isNegative then '-' :: text else text)

/-- The text of a number in source code. -/
def sourceText (number : Binary64) : String :=
  if number.isNaN then
    "NaN"
  else if !number.isFinite then
    number.signed "inf".toList
  else if number.magnitude = 0 then
    number.signed "0".toList
  else
    number.signed ((Decimal.shortest .up number.magnitude).positional [])

/-- The text of the magnitude of a finite number in JSON. Orders from -5 to 15 are written
without an exponent part.
-/
def jsonMagnitude (magnitude : Nat) : List Char :=
  if magnitude = 0 then
    "0.0".toList
  else
    let decimal := Decimal.shortest .even magnitude
    if -5 < decimal.point ∧ decimal.point ≤ 16 then
      decimal.positional ".0".toList
    else
      decimal.scientific

/-- The text of a number in JSON, which has none for infinities and NaN. -/
def jsonText? (number : Binary64) : Option String :=
  if number.isFinite then
    some (number.signed (jsonMagnitude number.magnitude))
  else
    none

end Binary64

end LetLang

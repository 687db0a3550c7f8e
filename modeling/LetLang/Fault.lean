/-! Failures of an operation whose argument lies outside its domain. A fault ends the whole
computation: it is never reported to the user as a problem of the source text.
-/

namespace LetLang

/-- A reason why an operation has no result. -/
inductive Fault where
  /-- A position would leave the 32-bit range. -/
  | additionOverflow
  /-- The end of a span lies before its start. -/
  | boundsReversed
  /-- An entry of a table with `size` entries is asked for at `index`. -/
  | indexOutOfRange (size index : Nat)
  /-- A walk over parent links comes back to where it has been. -/
  | endlessWalk
  deriving DecidableEq

/-- The wording of a fault. -/
def Fault.message : Fault → String
  | additionOverflow => "attempt to add with overflow"
  | boundsReversed => "assertion failed: end >= start"
  | indexOutOfRange size index =>
      "index out of bounds: the len is " ++ toString size ++ " but the index is "
        ++ toString index
  | endlessWalk => "the chain of parents does not end"

end LetLang

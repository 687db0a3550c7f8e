import LetLang.Fault

/-! Locations and spans of a source text. A location is the offset of a byte and fits into 32
bits; an operation whose result would not fit is a fault.
-/

namespace LetLang

/-- The offset of a byte from the start of the source. -/
abbrev Location := Nat

namespace Location

/-- Every location is below this bound. -/
def bound : Nat := UInt32.size

/-- The location `distance` bytes further on, if there is one. -/
def add (location distance : Nat) : Except Fault Location :=
  if location + distance < bound then
    .ok (location + distance)
  else
    .error .additionOverflow

/-- The written form of a location. -/
def display (location : Location) : String :=
  "@" ++ toString location

end Location

/-- A stretch of source text. -/
structure Span where
  start : Location
  length : Nat
  deriving DecidableEq, Inhabited

namespace Span

/-- The span between two locations, which must come in order. -/
def ofBounds (start stop : Location) : Except Fault Span :=
  if start ≤ stop then
    .ok ⟨start, stop - start⟩
  else
    .error .boundsReversed

/-- The span at a location that holds nothing. -/
def empty (location : Location) : Span :=
  ⟨location, 0⟩

/-- Whether a span holds nothing. -/
def isEmpty (span : Span) : Bool :=
  span.length == 0

/-- The location right after a span. -/
def stop (span : Span) : Except Fault Location :=
  Location.add span.start span.length

/-- Whether a location lies in a span. The end of the span is only computed when the location
is not before its start.
-/
def contains (span : Span) (location : Location) : Except Fault Bool :=
  if span.start ≤ location then
    return decide (location < (← span.stop))
  else
    return false

/-- The written form of a span as a half-open interval. -/
def display (span : Span) : Except Fault String :=
  return "[" ++ toString span.start ++ ", " ++ toString (← span.stop) ++ ")"

/-- The written form of a span as a range. -/
def range (span : Span) : Except Fault String :=
  return toString span.start ++ ".." ++ toString (← span.stop)

/-- Whether a span is the empty one at the start of the text. -/
def isOrigin (span : Span) : Bool :=
  span == ⟨0, 0⟩

end Span

end LetLang

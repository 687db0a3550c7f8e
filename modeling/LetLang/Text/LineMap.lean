import LetLang.Text.Bytes
import LetLang.Text.Span

/-! The lines of a text. A line map keeps where each line starts, so that the line of an
offset is found by a binary search. Offsets past the end belong to the last line.
-/

namespace LetLang

/-- A line and a column, both counted from zero; the column counts bytes. -/
structure LineColumn where
  line : Nat
  column : Nat
  deriving DecidableEq

/-- The written form of a line and a column, both counted from one. -/
def LineColumn.display (place : LineColumn) : Except Fault String :=
  return toString (← Location.add place.line 1) ++ ":"
    ++ toString (← Location.add place.column 1)

/-- The offsets at which the lines of a text start, in order. -/
structure LineMap where
  starts : Array Location
  deriving DecidableEq

namespace LineMap

/-- Adds the starts of the lines that follow a newline of `text`, which begins at `offset`. -/
def collect (starts : Array Location) (offset : Location) : List Char → Array Location
  | [] => starts
  | first :: rest =>
      collect (if first = '\n' then starts.push (offset + 1) else starts)
        (offset + first.utf8Size) rest

/-- The line map of a text. -/
def ofText (text : List Char) : LineMap :=
  ⟨collect #[0] 0 text⟩

/-- The number of lines. -/
def lineCount (map : LineMap) : Nat :=
  map.starts.size

/-- Narrows down how many of the first `high` starts are not after `position`, when the first
`low` of them are known not to be.
-/
def search (starts : Array Location) (position : Location) (low high : Nat) : Nat :=
  if low < high then
    if starts.getD ((low + high) / 2) 0 ≤ position then
      search starts position ((low + high) / 2 + 1) high
    else
      search starts position low ((low + high) / 2)
  else
    low
termination_by high - low

/-- How the search for a position among the starts ends: at a start that is the position, or at the
index where the position would be put in.
-/
inductive Found where
  | hit (index : Nat)
  | miss (index : Nat)
  deriving DecidableEq

/-- Looks for a position among the starts. -/
def find (starts : Array Location) (position : Location) : Found :=
  let passed := search starts position 0 starts.size
  if 0 < passed ∧ starts.getD (passed - 1) 0 = position then
    .hit (passed - 1)
  else
    .miss passed

/-- The line of an offset: the one that starts there, or else the one before the next start. -/
def lineOf (map : LineMap) (position : Location) : Nat :=
  match find map.starts position with
  | .hit line => line
  | .miss line => line - 1

/-- The offset at which a line starts. -/
def lineStart (map : LineMap) (line : Nat) : Except Fault Location :=
  match map.starts[line]? with
  | some start => .ok start
  | none => .error (.indexOutOfRange map.starts.size line)

/-- The line and the column of an offset. -/
def lineColumn (map : LineMap) (position : Location) : Except Fault LineColumn :=
  return ⟨map.lineOf position, position - (← map.lineStart (map.lineOf position))⟩

end LineMap

end LetLang

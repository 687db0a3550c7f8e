/-! Positions in a text count the bytes of its UTF-8 form. A position inside a character
belongs to no cut of the text, so cutting goes to the nearest character boundary before it.
-/

namespace LetLang.Text

/-- The number of bytes of a text. -/
def byteLength (text : List Char) : Nat :=
  text.foldr (fun first total => first.utf8Size + total) 0

@[simp]
theorem byteLength_nil : byteLength [] = 0 := rfl

@[simp]
theorem byteLength_cons (first : Char) (rest : List Char)
    : byteLength (first :: rest) = first.utf8Size + byteLength rest := rfl

@[simp]
theorem byteLength_append (left right : List Char)
    : byteLength (left ++ right) = byteLength left + byteLength right := by
  induction left with
  | nil => simp
  | cons first rest ih => simp [ih, Nat.add_assoc]

@[simp]
theorem byteLength_reverse (text : List Char) : byteLength text.reverse = byteLength text := by
  induction text with
  | nil => rfl
  | cons first rest ih => simp [ih, Nat.add_comm]

/-- A text cut in two. The part before the cut is kept nearest character first. -/
structure Cut where
  before : List Char
  after : List Char
  deriving DecidableEq

/-- The text that was cut. -/
def Cut.text (cut : Cut) : List Char :=
  cut.before.reverse ++ cut.after

/-- The position of a cut. -/
def Cut.position (cut : Cut) : Nat :=
  byteLength cut.before

/-- Moves a cut one character towards the start of the text. -/
def Cut.retreat : Cut → Cut
  | ⟨last :: before, after⟩ => ⟨before, last :: after⟩
  | cut => cut

/-- Moves a cut over the characters that fit into `budget` bytes. -/
def cutFrom (budget : Nat) (before : List Char) : List Char → Cut
  | [] => ⟨before, []⟩
  | first :: rest =>
      if first.utf8Size ≤ budget then
        cutFrom (budget - first.utf8Size) (first :: before) rest
      else
        ⟨before, first :: rest⟩

/-- Cuts a text at the last character boundary that is not after `position`. -/
def cutAt (position : Nat) (text : List Char) : Cut :=
  cutFrom position [] text

theorem cutFrom_text (budget : Nat) (before text : List Char)
    : (cutFrom budget before text).text = before.reverse ++ text := by
  induction text generalizing budget before with
  | nil => rfl
  | cons first rest ih =>
      unfold cutFrom
      split
      · simp [ih]
      · rfl

/-- Cutting loses nothing. -/
theorem cutAt_text (position : Nat) (text : List Char)
    : (cutAt position text).text = text := by
  simp [cutAt, cutFrom_text]

@[simp]
theorem Cut.retreat_text (cut : Cut) : cut.retreat.text = cut.text := by
  rcases cut with ⟨_ | ⟨last, before⟩, after⟩ <;> simp [retreat, text]

end LetLang.Text

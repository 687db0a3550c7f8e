import LetLang.Json.Basic

/-! Reading of JSON text, by the letter of the grammar: no comments, no trailing commas, no
leading zeros, no control characters inside strings. Containers that are not closed yet are kept
in a list, so their depth does not matter.
-/

namespace LetLang.Json

/-- Blanks between the parts of a value. -/
def isBlank (c : Char) : Bool :=
  c == ' ' || c == '\t' || c == '\n' || c == '\r'

/-- The value of a hexadecimal digit. -/
def hexValue? (c : Char) : Option Nat :=
  if c.isDigit then some (c.toNat - '0'.toNat)
  else if 'a' ≤ c ∧ c ≤ 'f' then some (c.toNat - 'a'.toNat + 10)
  else if 'A' ≤ c ∧ c ≤ 'F' then some (c.toNat - 'A'.toNat + 10)
  else none

/-- The number that four hexadecimal digits stand for. -/
def codeUnit? (a b c d : Char) : Option Nat :=
  return (((← hexValue? a) * 16 + (← hexValue? b)) * 16 + (← hexValue? c)) * 16
    + (← hexValue? d)

/-- The character that a letter behind a backslash stands for. -/
def unescape? (c : Char) : Option Char :=
  if c = '"' then some '"'
  else if c = '\\' then some '\\'
  else if c = '/' then some '/'
  else if c = 'b' then some '\x08'
  else if c = 'f' then some '\x0c'
  else if c = 'n' then some '\n'
  else if c = 'r' then some '\r'
  else if c = 't' then some '\t'
  else none

/-- A string on its way: its characters so far, last one first, the first half of a surrogate
pair if its second half is due, and whether all pairs so far were complete.
-/
structure PartialString where
  done : List Char
  high : Option Nat
  complete : Bool

namespace PartialString

/-- Nothing read yet. -/
def empty : PartialString :=
  ⟨[], none, true⟩

/-- Adds a character. -/
def push (string : PartialString) (c : Char) : PartialString :=
  ⟨c :: string.done, none, string.complete && string.high.isNone⟩

/-- Adds a code unit, which can be half of a surrogate pair. -/
def pushUnit (string : PartialString) (unit : Nat) : PartialString :=
  if 0xD800 ≤ unit ∧ unit < 0xDC00 then
    ⟨string.done, some unit, string.complete && string.high.isNone⟩
  else if 0xDC00 ≤ unit ∧ unit < 0xE000 then
    match string.high with
    | some high =>
        let pair := 0x10000 + (high - 0xD800) * 0x400 + (unit - 0xDC00)
        ⟨Char.ofNat pair :: string.done, none, string.complete⟩
    | none => ⟨string.done, none, false⟩
  else
    string.push (Char.ofNat unit)

/-- The text of a string that has ended. -/
def finish (string : PartialString) : Option String :=
  if string.complete && string.high.isNone then
    some (String.ofList string.done.reverse)
  else
    none

end PartialString

/-- Reads the rest of a string, up to its closing quote. -/
def stringFrom (string : PartialString) : List Char → Option (Option String × List Char)
  | [] => none
  | '"' :: rest => some (string.finish, rest)
  | '\\' :: 'u' :: a :: b :: c :: d :: rest =>
      match codeUnit? a b c d with
      | some unit => stringFrom (string.pushUnit unit) rest
      | none => none
  | '\\' :: letter :: rest =>
      match unescape? letter with
      | some c => stringFrom (string.push c) rest
      | none => none
  | c :: rest => if c.toNat < 32 ∨ c = '\\' then none else stringFrom (string.push c) rest

/-- Takes a run of at least one digit off a text. -/
def digits? (text : List Char) : Option (List Char × List Char) :=
  match text.takeWhile Char.isDigit with
  | [] => none
  | digits => some (digits, text.dropWhile Char.isDigit)

/-- Takes the whole part of a number off a text. -/
def whole? : List Char → Option (List Char × List Char)
  | '0' :: rest => some (['0'], rest)
  | text => digits? text

/-- Takes the fraction of a number off a text. -/
def fraction? : List Char → Option (List Char × List Char)
  | '.' :: rest => (digits? rest).map fun (digits, rest) => ('.' :: digits, rest)
  | text => some ([], text)

/-- Whether a character starts the exponent part of a number. -/
def isExponentMark (c : Char) : Bool :=
  c == 'e' || c == 'E'

/-- Takes the exponent part of a number off a text. -/
def exponent? : List Char → Option (List Char × List Char)
  | mark :: sign :: rest =>
      if isExponentMark mark then
        if sign = '+' ∨ sign = '-' then
          (digits? rest).map fun (digits, rest) => (mark :: sign :: digits, rest)
        else
          (digits? (sign :: rest)).map fun (digits, rest) => (mark :: digits, rest)
      else
        some ([], mark :: sign :: rest)
  | [mark] => if isExponentMark mark then none else some ([], [mark])
  | [] => some ([], [])

/-- Takes a number off a text. -/
def number? (text : List Char) : Option (String × List Char) := do
  let (sign, text) :=
    match text with
    | '-' :: rest => (['-'], rest)
    | text => ([], text)
  let (whole, text) ← whole? text
  let (fraction, text) ← fraction? text
  let (exponent, text) ← exponent? text
  return (String.ofList (sign ++ whole ++ fraction ++ exponent), text)

/-- Takes a value without parts off a text. -/
def scalar? : List Char → Option (Json × List Char)
  | '"' :: rest => (stringFrom .empty rest).map fun (text, rest) => (.string text, rest)
  | 'n' :: 'u' :: 'l' :: 'l' :: rest => some (.null, rest)
  | 't' :: 'r' :: 'u' :: 'e' :: rest => some (.bool true, rest)
  | 'f' :: 'a' :: 'l' :: 's' :: 'e' :: rest => some (.bool false, rest)
  | text => (number? text).map fun (literal, rest) => (.number literal, rest)

/-- Takes a key and its colon off a text. -/
def key? (text : List Char) : Option (Option String × List Char) :=
  match text.dropWhile isBlank with
  | '"' :: rest =>
      match stringFrom .empty rest with
      | some (key, rest) =>
          match rest.dropWhile isBlank with
          | ':' :: rest => some (key, rest)
          | _ => none
      | none => none
  | _ => none

theorem dropWhile_length_le (p : Char → Bool) (text : List Char)
    : (text.dropWhile p).length ≤ text.length :=
  (List.dropWhile_sublist p).length_le

theorem stringFrom_length_lt {string : PartialString} {text rest : List Char}
    {found : Option String} (h : stringFrom string text = some (found, rest))
    : rest.length < text.length := by
  fun_induction stringFrom string text with
  | case1 | case4 | case6 | case7 => simp at h
  | case2 => simp only [Option.some.injEq, Prod.mk.injEq] at h; simp [h.2]
  | case3 _ _ _ _ _ _ _ _ ih | case5 _ _ _ _ _ _ ih | case8 _ _ _ _ _ _ _ ih =>
      have := ih h
      simp only [List.length_cons]
      omega

theorem digits?_length_lt {text digits rest : List Char} (h : digits? text = some (digits, rest))
    : rest.length < text.length := by
  unfold digits? at h
  split at h
  · cases h
  · next digits' hne =>
      cases h
      have hl := congrArg List.length
        (List.takeWhile_append_dropWhile (p := Char.isDigit) (l := text))
      rw [List.length_append] at hl
      have := List.length_pos_iff.mpr hne
      omega

theorem whole?_length_lt {text whole rest : List Char} (h : whole? text = some (whole, rest))
    : rest.length < text.length := by
  unfold whole? at h
  split at h
  · cases h; simp
  · exact digits?_length_lt h

theorem fraction?_length_le {text fraction rest : List Char}
    (h : fraction? text = some (fraction, rest))
    : rest.length ≤ text.length := by
  unfold fraction? at h
  split at h
  · next tail =>
      obtain ⟨⟨digits, rest'⟩, hd, he⟩ := Option.map_eq_some_iff.mp h
      cases he
      have := digits?_length_lt hd
      simp only [List.length_cons]
      omega
  · cases h; exact Nat.le_refl _

theorem exponent?_length_le {text exponent rest : List Char}
    (h : exponent? text = some (exponent, rest))
    : rest.length ≤ text.length := by
  unfold exponent? at h
  split at h
  · next mark sign tail =>
      (repeat' split at h)
      · obtain ⟨⟨digits, rest'⟩, hd, he⟩ := Option.map_eq_some_iff.mp h
        cases he
        have := digits?_length_lt hd
        simp only [List.length_cons]
        omega
      · obtain ⟨⟨digits, rest'⟩, hd, he⟩ := Option.map_eq_some_iff.mp h
        cases he
        have := digits?_length_lt hd
        simp only [List.length_cons] at this ⊢
        omega
      · cases h; exact Nat.le_refl _
  · split at h
    · cases h
    · cases h; exact Nat.le_refl _
  · cases h; exact Nat.le_refl _

theorem number?_length_lt {text rest : List Char} {literal : String}
    (h : number? text = some (literal, rest))
    : rest.length < text.length := by
  simp only [number?, bind, Option.bind_eq_some_iff] at h
  obtain ⟨⟨whole, afterWhole⟩, hw, ⟨fraction, afterFraction⟩, hf,
    ⟨exponent, afterExponent⟩, he, hr⟩ := h
  cases hr
  have hl := whole?_length_lt hw
  have hf := fraction?_length_le hf
  have he := exponent?_length_le he
  simp only at hl hf he
  split at hl
  · simp only [List.length_cons] at hl ⊢
    omega
  · exact Nat.lt_of_le_of_lt (Nat.le_trans he hf) hl

theorem scalar?_length_lt {text rest : List Char} {found : Json}
    (h : scalar? text = some (found, rest))
    : rest.length < text.length := by
  unfold scalar? at h
  split at h
  · obtain ⟨⟨text', rest'⟩, hs, he⟩ := Option.map_eq_some_iff.mp h
    cases he
    have := stringFrom_length_lt hs
    simp only [List.length_cons]
    omega
  · cases h; simp only [List.length_cons]; omega
  · cases h; simp only [List.length_cons]; omega
  · cases h; simp only [List.length_cons]; omega
  · obtain ⟨⟨literal, rest'⟩, hn, he⟩ := Option.map_eq_some_iff.mp h
    cases he
    exact number?_length_lt hn

theorem key?_length_lt {text rest : List Char} {key : Option String}
    (h : key? text = some (key, rest))
    : rest.length < text.length := by
  unfold key? at h
  have ht := dropWhile_length_le isBlank text
  split at h
  · next tail hq =>
      rw [hq, List.length_cons] at ht
      split at h
      · next found tail' hs =>
          have hl := stringFrom_length_lt hs
          have hd := dropWhile_length_le isBlank tail'
          split at h
          · next hc =>
              cases h
              rw [hc, List.length_cons] at hd
              omega
          · cases h
      · cases h
  · cases h

/-- A container that is not closed yet: what it holds so far, last one first, and for an object
the key of the member on its way.
-/
inductive Frame where
  | array (items : List Json)
  | object (members : List (Option String × Json)) (key : Option String)

/-- Reads on inside the given containers, innermost first. A value that has just been read is
given as `value?` and goes into the innermost container; otherwise a value is due. Gives the
outermost value and the text behind it.
-/
def readFrom (value? : Option Json) (frames : List Frame) (text : List Char)
    : Option (Json × List Char) :=
  match value? with
  | none =>
      match _ht : text.dropWhile isBlank with
      | '[' :: rest =>
          match _hr : rest.dropWhile isBlank with
          | ']' :: rest => readFrom (some (.array [])) frames rest
          | _ => readFrom none (.array [] :: frames) rest
      | '\x7b' :: rest =>
          match _hr : rest.dropWhile isBlank with
          | '\x7d' :: rest => readFrom (some (.object [])) frames rest
          | _ =>
              match _hk : key? rest with
              | some (key, rest) => readFrom none (.object [] key :: frames) rest
              | none => none
      | trimmed =>
          match _hs : scalar? trimmed with
          | some (value, rest) => readFrom (some value) frames rest
          | none => none
  | some value =>
      match frames with
      | [] => some (value, text)
      | .array items :: frames =>
          match _ht : text.dropWhile isBlank with
          | ',' :: rest => readFrom none (.array (value :: items) :: frames) rest
          | ']' :: rest => readFrom (some (.array (value :: items).reverse)) frames rest
          | _ => none
      | .object members key :: frames =>
          match _ht : text.dropWhile isBlank with
          | ',' :: rest =>
              match _hk : key? rest with
              | some (next, rest) =>
                  readFrom none (.object ((key, value) :: members) next :: frames) rest
              | none => none
          | '\x7d' :: rest =>
              readFrom (some (.object ((key, value) :: members).reverse)) frames rest
          | _ => none
termination_by text.length
decreasing_by
  -- Every step takes at least one character off the text.
  all_goals
    have hl := dropWhile_length_le isBlank text
    try rw [_ht] at hl
    try have hr := _hr ▸ dropWhile_length_le isBlank _
    try have hk := key?_length_lt _hk
    try have hs := scalar?_length_lt _hs
    try simp only [List.length_cons] at *
    omega

/-- The value of a text that holds one value and nothing else. -/
def read? (text : String) : Option Json :=
  match readFrom none [] text.toList with
  | some (value, rest) => if rest.all isBlank then some value else none
  | none => none

end LetLang.Json

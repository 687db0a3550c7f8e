import LetLang.Proofs.Json.Scalars

/-! Values are read back from their text. The layout does not matter as long as it adds nothing but
blanks, so a value is determined by its text in any layout.
-/

namespace LetLang.Json

/-- A layout that adds nothing but blanks. -/
structure Style.AddsBlanks (style : Style) : Prop where
  lineBreak : ∀ depth, ∀ c ∈ (style.lineBreak depth).toList, isBlank c = true
  colon : ∃ blanks, style.colon.toList = ':' :: blanks ∧ ∀ c ∈ blanks, isBlank c = true

theorem Style.compact_addsBlanks : Style.compact.AddsBlanks :=
  ⟨fun _ => by simp [compact], [], rfl, by simp⟩

theorem Style.pretty_addsBlanks : Style.pretty.AddsBlanks := by
  refine ⟨fun depth c member => ?_, [' '], rfl, by simp [isBlank]⟩
  simp only [pretty, String.toList_ofList, List.mem_cons, List.mem_replicate] at member
  rcases member with rfl | ⟨_, rfl⟩ <;> rfl

/-- All numbers of a value are written as numbers. -/
inductive HasLiterals : Json → Prop
  | null : HasLiterals .null
  | bool (value : Bool) : HasLiterals (.bool value)
  | number {literal} (isLiteral : IsLiteral literal.toList) : HasLiterals (.number literal)
  | string (text : Option String) : HasLiterals (.string text)
  | array {items} (all : ∀ item ∈ items, HasLiterals item) : HasLiterals (.array items)
  | object {members} (all : ∀ member ∈ members, HasLiterals member.2)
    : HasLiterals (.object members)

namespace HasLiterals

theorem text (text : String) : HasLiterals (Json.text text) :=
  .string _

theorem natural (value : Nat) : HasLiterals (Json.natural value) :=
  .number (isLiteral_natural value)

theorem optional {α : Type} {encode : α → Json} (all : ∀ value, HasLiterals (encode value))
    : ∀ value, HasLiterals (Json.optional encode value)
  | none => .null
  | some value => all value

theorem record {members : List (String × Json)} (all : ∀ member ∈ members, HasLiterals member.2)
    : HasLiterals (Json.record members) := by
  refine .object fun member mem => ?_
  obtain ⟨given, known, rfl⟩ := List.mem_map.mp mem
  exact all given known

end HasLiterals

-----------------------------------------------------------------------------------------
-- The text of a value
-----------------------------------------------------------------------------------------

theorem isBlank_iff {c : Char} : isBlank c = true ↔ c = ' ' ∨ c = '\t' ∨ c = '\n' ∨ c = '\r' := by
  simp [isBlank, or_assoc]

/-- The start of a number is no other part of the grammar. -/
theorem regular_of_numberStart {c : Char} (start : c.isDigit = true ∨ c = '-')
    : isBlank c = false ∧ c ≠ ']' ∧ c ≠ '[' ∧ c ≠ '\x7b' := by
  rcases start with digit | rfl
  · refine ⟨?_, ?_, ?_, ?_⟩
    · rw [← Bool.not_eq_true, isBlank_iff]
      rintro (rfl | rfl | rfl | rfl) <;> cases digit
    all_goals rintro rfl; cases digit
  · decide

/-- A number ends before blanks and a character that cannot belong to it. -/
theorem ends_of_blanks {blanks : List Char} (blank : ∀ c ∈ blanks, isBlank c = true) {c : Char}
    {rest : List Char} (closing : Ends [c])
    : Ends (blanks ++ c :: rest) := by
  cases blanks with
  | nil => simpa [Ends] using closing
  | cons first blanks =>
      rcases isBlank_iff.mp (blank first List.mem_cons_self) with rfl | rfl | rfl | rfl <;>
        simp [Ends, isExponentMark]

/-- Blanks in front are passed over. -/
theorem dropWhile_blanks {blanks : List Char} (blank : ∀ c ∈ blanks, isBlank c = true) {c : Char}
    (regular : isBlank c = false) (rest : List Char)
    : (blanks ++ c :: rest).dropWhile isBlank = c :: rest := by
  rw [List.dropWhile_append_of_pos blank, List.dropWhile_cons_of_neg (by simp [regular])]

section Text

variable (style : Style)

mutual

theorem writeOnto_eq_append (depth : Nat) (out : String)
    : ∀ value, writeOnto style depth out value = out ++ writeOnto style depth "" value
  | .null | .bool _ | .number _ | .array [] | .object [] => by simp [writeOnto]
  | .string text => by
      apply String.toList_injective
      simp [writeOnto, toList_writeString]
  | .array (item :: items) => by
      rw [writeOnto, writeOnto, writeItems_eq_append _ _ (out ++ "["),
        writeItems_eq_append _ _ ("" ++ "[")]
      simp [String.append_assoc]
  | .object (member :: members) => by
      rw [writeOnto, writeOnto, writeMembers_eq_append _ _ (out ++ "\x7b"),
        writeMembers_eq_append _ _ ("" ++ "\x7b")]
      simp [String.append_assoc]

theorem writeItems_eq_append (depth : Nat) (isFirst : Bool) (out : String)
    : ∀ items,
        writeItems style depth isFirst out items = out ++ writeItems style depth isFirst "" items
  | [] => by simp [writeItems]
  | item :: items => by
      rw [writeItems, writeItems, writeItems_eq_append _ _ (writeOnto _ _ _ _) items,
        writeItems_eq_append _ _ (writeOnto _ _ ("" ++ _) _) items,
        writeOnto_eq_append _ (out ++ _) item, writeOnto_eq_append _ ("" ++ _) item]
      simp [String.append_assoc]

theorem writeMembers_eq_append (depth : Nat) (isFirst : Bool) (out : String)
    : ∀ members,
        writeMembers style depth isFirst out members
          = out ++ writeMembers style depth isFirst "" members
  | [] => by simp [writeMembers]
  | (key, value) :: members => by
      have string : writeString (out ++ separator style depth isFirst) key
          = out ++ writeString ("" ++ separator style depth isFirst) key := by
        apply String.toList_injective
        simp [toList_writeString]
      rw [writeMembers, writeMembers, writeMembers_eq_append _ _ (writeOnto _ _ _ _) members,
        writeMembers_eq_append _ _ (writeOnto _ _ (writeString ("" ++ _) _ ++ _) _) members,
        writeOnto_eq_append _ (writeString (out ++ _) _ ++ _) value,
        writeOnto_eq_append _ (writeString ("" ++ _) _ ++ _) value, string]
      simp [String.append_assoc]

end

/-- The characters of a value inside `depth` containers. -/
def chars (depth : Nat) (value : Json) : List Char :=
  (writeOnto style depth "" value).toList

/-- The characters of an item and what comes before it, up to the comma. -/
def itemChars (depth : Nat) (item : Json) : List Char :=
  (style.lineBreak depth).toList ++ chars style depth item

/-- The characters of a member and what comes before it, up to the comma. -/
def memberChars (depth : Nat) (member : Option String × Json) : List Char :=
  (style.lineBreak depth).toList
    ++ '"' :: (quoted member.1 ++ (style.colon.toList ++ chars style depth member.2))

theorem toList_writeItems (depth : Nat) (items : List Json)
    : (writeItems style depth false "" items).toList
      = items.flatMap fun item => ',' :: itemChars style depth item := by
  induction items with
  | nil => simp [writeItems]
  | cons item items ih =>
      rw [writeItems, writeItems_eq_append, writeOnto_eq_append]
      simp [separator, itemChars, chars, ih]

theorem toList_writeMembers (depth : Nat) (members : List (Option String × Json))
    : (writeMembers style depth false "" members).toList
      = members.flatMap fun member => ',' :: memberChars style depth member := by
  induction members with
  | nil => simp [writeMembers]
  | cons member members ih =>
      rw [writeMembers, writeMembers_eq_append, writeOnto_eq_append]
      simp [separator, memberChars, chars, toList_writeString, ih]

theorem chars_array (depth : Nat) (item : Json) (items : List Json)
    : chars style depth (.array (item :: items))
      = '[' :: (itemChars style (depth + 1) item
          ++ ((items.flatMap fun item => ',' :: itemChars style (depth + 1) item)
            ++ ((style.lineBreak depth).toList ++ [']']))) := by
  rw [chars, writeOnto, writeItems, writeItems_eq_append, writeOnto_eq_append]
  simp [separator, itemChars, chars, toList_writeItems]

theorem chars_object (depth : Nat) (member : Option String × Json)
    (members : List (Option String × Json))
    : chars style depth (.object (member :: members))
      = '\x7b' :: (memberChars style (depth + 1) member
          ++ ((members.flatMap fun member => ',' :: memberChars style (depth + 1) member)
            ++ ((style.lineBreak depth).toList ++ ['\x7d']))) := by
  rw [chars, writeOnto, writeMembers, writeMembers_eq_append, writeOnto_eq_append]
  simp [separator, memberChars, chars, toList_writeString, toList_writeMembers]

@[simp]
theorem chars_null (depth : Nat) : chars style depth .null = ['n', 'u', 'l', 'l'] := by
  simp [chars, writeOnto]

@[simp]
theorem chars_bool (depth : Nat) (value : Bool)
    : chars style depth (.bool value) = (if value then "true" else "false").toList := by
  simp [chars, writeOnto]

@[simp]
theorem chars_number (depth : Nat) (literal : String)
    : chars style depth (.number literal) = literal.toList := by
  simp [chars, writeOnto]

@[simp]
theorem chars_string (depth : Nat) (text : Option String)
    : chars style depth (.string text) = '"' :: quoted text := by
  simp [chars, writeOnto, toList_writeString]

@[simp]
theorem chars_empty_array (depth : Nat) : chars style depth (.array []) = ['[', ']'] := by
  simp [chars, writeOnto]

@[simp]
theorem chars_empty_object (depth : Nat)
    : chars style depth (.object []) = ['\x7b', '\x7d'] := by
  simp [chars, writeOnto]

/-- The text of a value starts neither with a blank nor with the end of an array. -/
theorem exists_chars_eq_cons {value : Json} (literals : HasLiterals value) (depth : Nat)
    : ∃ first more,
        chars style depth value = first :: more ∧ isBlank first = false ∧ first ≠ ']' := by
  cases literals with
  | null => exact ⟨'n', _, chars_null style depth, by decide, by decide⟩
  | bool value => cases value <;> simp [isBlank]
  | @number literal isLiteral =>
      obtain ⟨first, more, same, start⟩ := isLiteral.exists_cons
      obtain ⟨regular, notClosing, _, _⟩ := regular_of_numberStart start
      exact ⟨first, more, by rw [chars_number, same], regular, notClosing⟩
  | string text => exact ⟨'"', _, chars_string style depth text, by decide, by decide⟩
  | @array items =>
      cases items with
      | nil => exact ⟨'[', _, chars_empty_array style depth, by decide, by decide⟩
      | cons item items => exact ⟨'[', _, chars_array style depth item items, by decide, by decide⟩
  | @object members =>
      cases members with
      | nil => exact ⟨'\x7b', _, chars_empty_object style depth, by decide, by decide⟩
      | cons member members =>
          exact ⟨'\x7b', _, chars_object style depth member members, by decide, by decide⟩

end Text

-----------------------------------------------------------------------------------------
-- Steps of reading
-----------------------------------------------------------------------------------------

section Steps

variable {frames : List Frame} {text rest more : List Char} {value : Json}

theorem readFrom_scalar {first : Char} (starts : text.dropWhile isBlank = first :: rest)
    (notArray : first ≠ '[') (notObject : first ≠ '\x7b')
    (found : scalar? (first :: rest) = some (value, more))
    : readFrom none frames text = readFrom (some value) frames more := by
  rw [readFrom]
  split
  · next array => exact absurd (List.cons.inj (starts.symm.trans array)).1 notArray
  · next object => exact absurd (List.cons.inj (starts.symm.trans object)).1 notObject
  · split <;> simp_all

theorem readFrom_openArray (starts : text.dropWhile isBlank = '[' :: rest)
    (unclosed : ∀ more, rest.dropWhile isBlank ≠ ']' :: more)
    : readFrom none frames text = readFrom none (.array [] :: frames) rest := by
  rw [readFrom]
  split <;> simp_all

theorem readFrom_emptyArray (starts : text.dropWhile isBlank = '[' :: rest)
    (closed : rest.dropWhile isBlank = ']' :: more)
    : readFrom none frames text = readFrom (some (.array [])) frames more := by
  rw [readFrom]
  split <;> simp_all
  split <;> simp_all

theorem readFrom_openObject {key : Option String}
    (starts : text.dropWhile isBlank = '\x7b' :: rest) (found : key? rest = some (key, more))
    : readFrom none frames text = readFrom none (.object [] key :: frames) more := by
  have unclosed : ∀ more, rest.dropWhile isBlank ≠ '\x7d' :: more := by
    intro more closed
    simp [key?, closed] at found
  rw [readFrom]
  split <;> simp_all
  split <;> simp_all

theorem readFrom_emptyObject (starts : text.dropWhile isBlank = '\x7b' :: rest)
    (closed : rest.dropWhile isBlank = '\x7d' :: more)
    : readFrom none frames text = readFrom (some (.object [])) frames more := by
  rw [readFrom]
  split <;> simp_all
  split <;> simp_all

theorem readFrom_nextItem {items : List Json} (starts : text.dropWhile isBlank = ',' :: rest)
    : readFrom (some value) (.array items :: frames) text
      = readFrom none (.array (value :: items) :: frames) rest := by
  rw [readFrom.eq_3]
  split <;> simp_all

theorem readFrom_closeArray {items : List Json} (starts : text.dropWhile isBlank = ']' :: rest)
    : readFrom (some value) (.array items :: frames) text
      = readFrom (some (.array (value :: items).reverse)) frames rest := by
  rw [readFrom.eq_3]
  split <;> simp_all

theorem readFrom_nextMember {members : List (Option String × Json)} {key next : Option String}
    (starts : text.dropWhile isBlank = ',' :: rest) (found : key? rest = some (next, more))
    : readFrom (some value) (.object members key :: frames) text
      = readFrom none (.object ((key, value) :: members) next :: frames) more := by
  rw [readFrom.eq_4]
  split <;> simp_all
  split <;> simp_all

theorem readFrom_closeObject {members : List (Option String × Json)} {key : Option String}
    (starts : text.dropWhile isBlank = '\x7d' :: rest)
    : readFrom (some value) (.object members key :: frames) text
      = readFrom (some (.object ((key, value) :: members).reverse)) frames rest := by
  rw [readFrom.eq_4]
  split <;> simp_all

end Steps

-----------------------------------------------------------------------------------------
-- Reading back
-----------------------------------------------------------------------------------------

/-- A value is read off its text, wherever that stands. -/
def ReadsBack (style : Style) (value : Json) : Prop :=
  ∀ depth frames blanks rest,
    (∀ c ∈ blanks, isBlank c = true)
    → Ends rest
    → readFrom none frames (blanks ++ (chars style depth value ++ rest))
      = readFrom (some value) frames rest

/-- What follows an item or a member is no part of a number. -/
theorem ends_of_tail {α : Type} {blanks : List Char} (blank : ∀ c ∈ blanks, isBlank c = true)
    {closing : Char} (closes : closing = ']' ∨ closing = '\x7d') (write : α → List Char)
    (parts : List α) (rest : List Char)
    : Ends ((parts.flatMap fun part => ',' :: write part) ++ (blanks ++ closing :: rest)) := by
  cases parts with
  | nil =>
      apply ends_of_blanks blank
      rcases closes with rfl | rfl <;> simp [Ends, isExponentMark]
  | cons part parts => simp [Ends, isExponentMark]

section ReadBack

variable {style : Style} (adds : style.AddsBlanks)

include adds

theorem key?_memberChars (depth : Nat) (member : Option String × Json) (rest : List Char)
    : ∃ blanks,
        (∀ c ∈ blanks, isBlank c = true)
        ∧ key? (memberChars style depth member ++ rest)
          = some (member.1, blanks ++ (chars style depth member.2 ++ rest)) := by
  obtain ⟨blanks, colon, blank⟩ := adds.colon
  refine ⟨blanks, blank, ?_⟩
  unfold key?
  rw [memberChars, List.append_assoc, List.cons_append,
    dropWhile_blanks (adds.lineBreak depth) (by decide)]
  simp [stringFrom_quoted, colon, isBlank]

/-- The items behind the first one are read up to the end of the array. -/
theorem readFrom_items {depth : Nat} {blanks rest : List Char}
    (blank : ∀ c ∈ blanks, isBlank c = true) {items : List Json}
    (readsBack : ∀ item ∈ items, ReadsBack style item) (value : Json) (done : List Json)
    (frames : List Frame)
    : readFrom (some value) (.array done :: frames)
        ((items.flatMap fun item => ',' :: itemChars style depth item) ++ (blanks ++ ']' :: rest))
      = readFrom (some (.array (done.reverse ++ value :: items))) frames rest := by
  induction items generalizing value done with
  | nil =>
      rw [List.flatMap_nil, List.nil_append,
        readFrom_closeArray (dropWhile_blanks blank (by decide) rest)]
      simp
  | cons item items ih =>
      obtain ⟨first, later⟩ := List.forall_mem_cons.mp readsBack
      have ends := ends_of_tail blank (.inl rfl) (itemChars style depth) items rest
      have next : (((item :: items).flatMap fun item => ',' :: itemChars style depth item)
            ++ (blanks ++ ']' :: rest)).dropWhile isBlank
          = ',' :: ((style.lineBreak depth).toList ++ (chars style depth item
              ++ ((items.flatMap fun item => ',' :: itemChars style depth item)
                ++ (blanks ++ ']' :: rest)))) := by
        simp [isBlank, itemChars]
      rw [readFrom_nextItem next, first depth _ _ _ (adds.lineBreak depth) ends, ih later]
      simp

/-- The members behind the first one are read up to the end of the object. -/
theorem readFrom_members {depth : Nat} {blanks rest : List Char}
    (blank : ∀ c ∈ blanks, isBlank c = true) {members : List (Option String × Json)}
    (readsBack : ∀ member ∈ members, ReadsBack style member.2) (key : Option String)
    (value : Json) (done : List (Option String × Json)) (frames : List Frame)
    : readFrom (some value) (.object done key :: frames)
        ((members.flatMap fun member => ',' :: memberChars style depth member)
          ++ (blanks ++ '\x7d' :: rest))
      = readFrom (some (.object (done.reverse ++ (key, value) :: members))) frames rest := by
  induction members generalizing key value done with
  | nil =>
      rw [List.flatMap_nil, List.nil_append,
        readFrom_closeObject (dropWhile_blanks blank (by decide) rest)]
      simp
  | cons member members ih =>
      obtain ⟨first, later⟩ := List.forall_mem_cons.mp readsBack
      have ends := ends_of_tail blank (.inr rfl) (memberChars style depth) members rest
      have next : (((member :: members).flatMap fun member => ',' :: memberChars style depth member)
            ++ (blanks ++ '\x7d' :: rest)).dropWhile isBlank
          = ',' :: (memberChars style depth member
              ++ ((members.flatMap fun member => ',' :: memberChars style depth member)
                ++ (blanks ++ '\x7d' :: rest))) := by
        simp [isBlank]
      obtain ⟨gap, gapBlank, found⟩ := key?_memberChars adds depth member _
      rw [readFrom_nextMember next found, first depth _ _ _ gapBlank ends, ih later]
      simp

theorem readsBack_array {item : Json} (literals : HasLiterals item)
    (first : ReadsBack style item) {items : List Json}
    (later : ∀ item ∈ items, ReadsBack style item)
    : ReadsBack style (.array (item :: items)) := by
  intro depth frames blanks rest blank _
  have text : chars style depth (.array (item :: items)) ++ rest
      = '[' :: ((style.lineBreak (depth + 1)).toList ++ (chars style (depth + 1) item
        ++ ((items.flatMap fun item => ',' :: itemChars style (depth + 1) item)
          ++ ((style.lineBreak depth).toList ++ ']' :: rest)))) := by
    simp [chars_array, itemChars]
  obtain ⟨start, more, same, regular, notClosing⟩ := exists_chars_eq_cons style literals (depth + 1)
  have unclosed : ∀ tail behind,
      ((style.lineBreak (depth + 1)).toList ++ (chars style (depth + 1) item ++ tail)).dropWhile
        isBlank ≠ ']' :: behind := by
    intro tail behind
    rw [same, List.cons_append, dropWhile_blanks (adds.lineBreak _) regular]
    exact fun closing => notClosing (List.cons.inj closing).1
  rw [text, readFrom_openArray (dropWhile_blanks blank (by decide) _) (unclosed _),
    first _ _ _ _ (adds.lineBreak _)
      (ends_of_tail (adds.lineBreak depth) (.inl rfl) (itemChars style _) items rest),
    readFrom_items adds (adds.lineBreak depth) later]
  rfl

theorem readsBack_object {member : Option String × Json} (first : ReadsBack style member.2)
    {members : List (Option String × Json)}
    (later : ∀ member ∈ members, ReadsBack style member.2)
    : ReadsBack style (.object (member :: members)) := by
  intro depth frames blanks rest blank _
  have text : chars style depth (.object (member :: members)) ++ rest
      = '\x7b' :: (memberChars style (depth + 1) member
        ++ ((members.flatMap fun member => ',' :: memberChars style (depth + 1) member)
          ++ ((style.lineBreak depth).toList ++ '\x7d' :: rest))) := by
    simp [chars_object]
  obtain ⟨gap, gapBlank, found⟩ := key?_memberChars adds (depth + 1) member _
  rw [text, readFrom_openObject (dropWhile_blanks blank (by decide) _) found,
    first _ _ _ _ gapBlank
      (ends_of_tail (adds.lineBreak depth) (.inr rfl) (memberChars style _) members rest),
    readFrom_members adds (adds.lineBreak depth) later]
  rfl

/-- Every value whose numbers are numbers is read off its text. -/
theorem readsBack_of_hasLiterals {value : Json} (literals : HasLiterals value)
    : ReadsBack style value := by
  induction literals with
  | null =>
      intro depth frames blanks rest blank _
      rw [chars_null]
      exact readFrom_scalar (dropWhile_blanks blank (by decide) _) (by decide) (by decide) rfl
  | bool value =>
      intro depth frames blanks rest blank _
      rw [chars_bool]
      cases value
      · exact readFrom_scalar (dropWhile_blanks blank (by decide) _) (by decide) (by decide) rfl
      · exact readFrom_scalar (dropWhile_blanks blank (by decide) _) (by decide) (by decide) rfl
  | @number literal isLiteral =>
      intro depth frames blanks rest blank ends
      obtain ⟨first, more, same, start⟩ := isLiteral.exists_cons
      obtain ⟨regular, _, notArray, notObject⟩ := regular_of_numberStart start
      have found := scalar?_literal isLiteral ends
      rw [String.ofList_toList, same] at found
      rw [chars_number, same]
      exact readFrom_scalar (dropWhile_blanks blank regular _) notArray notObject found
  | string text =>
      intro depth frames blanks rest blank _
      rw [chars_string]
      exact readFrom_scalar (dropWhile_blanks blank (by decide) _) (by decide) (by decide)
        (by simp [scalar?, stringFrom_quoted])
  | @array items all ih =>
      cases items with
      | nil =>
          intro depth frames blanks rest blank _
          rw [chars_empty_array]
          exact readFrom_emptyArray (dropWhile_blanks blank (by decide) _) rfl
      | cons item items =>
          obtain ⟨first, later⟩ := List.forall_mem_cons.mp ih
          exact readsBack_array adds (all item List.mem_cons_self) first later
  | @object members all ih =>
      cases members with
      | nil =>
          intro depth frames blanks rest blank _
          rw [chars_empty_object]
          exact readFrom_emptyObject (dropWhile_blanks blank (by decide) _) rfl
      | cons member members =>
          obtain ⟨first, later⟩ := List.forall_mem_cons.mp ih
          exact readsBack_object adds first later

/-- A value is read off its text. -/
theorem read?_write {value : Json} (literals : HasLiterals value)
    : read? (value.write style) = some value := by
  have found := readsBack_of_hasLiterals adds literals 0 [] [] [] (by simp) (by simp [Ends])
  rw [List.nil_append, List.append_nil, chars, readFrom.eq_2] at found
  rw [read?, write, found]
  rfl

/-- A value is determined by its text. -/
theorem eq_of_write_eq {value other : Json} (literals : HasLiterals value)
    (otherLiterals : HasLiterals other) (same : value.write style = other.write style)
    : value = other := by
  have found := read?_write adds literals
  rw [same, read?_write adds otherLiterals] at found
  exact (Option.some.inj found).symm

end ReadBack

end LetLang.Json

import LetLang.Proofs.Text.Lines

/-! Lines and columns of offsets. A line starts at or before a position exactly if it is not behind
the line of the position. So the line of a position is found whether or not a line starts there, its
column is the rest of the way from the start of the line, and each line starts at the one position
that has column zero on it.
-/

namespace LetLang.LineMap

open LetLang.Text

/-- A position that is put in at `index` keeps the starts sorted: it is none of them, it comes after
those in front of `index` and before all others.
-/
structure InsertedAt (starts : Array Location) (position : Location) (index : Nat) : Prop where
  within : index ≤ starts.size
  before : ∀ line < index, ∀ start, starts[line]? = some start → start < position
  behind : ∀ line ≥ index, ∀ start, starts[line]? = some start → position < start

-----------------------------------------------------------------------------------------
-- The starts of a text
-----------------------------------------------------------------------------------------

theorem le_of_mem_startsFrom {offset start : Location} {text : List Char}
    (member : start ∈ startsFrom offset text)
    : start ≤ offset + byteLength text := by
  induction text generalizing offset with
  | nil => cases member
  | cons first rest ih =>
      rw [byteLength_cons, ← Nat.add_assoc]
      rw [startsFrom] at member
      split at member
      · rcases List.mem_cons.mp member with rfl | later
        · have width := Char.utf8Size_pos first
          simp only [Location] at *
          omega
        · exact ih later
      · exact ih member

/-- No line starts behind the end of the text. -/
theorem le_of_mem_starts {text : List Char} {start : Location}
    (member : start ∈ (ofText text).starts)
    : start ≤ byteLength text := by
  rw [← Array.mem_toList_iff, toList_starts] at member
  rcases List.mem_cons.mp member with rfl | later
  · exact Nat.zero_le _
  · exact (le_of_mem_startsFrom later).trans_eq (Nat.zero_add _)

/-- There is one line more than there are line breaks. -/
theorem lineCount_ofText (text : List Char) : (ofText text).lineCount = text.count '\n' + 1 := by
  rw [lineCount, ← Array.length_toList, toList_starts, List.length_cons, length_startsFrom]

theorem lineStart_eq_ok_iff {map : LineMap} {line : Nat} {start : Location}
    : map.lineStart line = .ok start ↔ map.starts[line]? = some start := by
  unfold lineStart
  split <;> simp_all

theorem exists_lineStart {map : LineMap} {line : Nat} (inside : line < map.lineCount)
    : ∃ start, map.lineStart line = .ok start :=
  ⟨_, lineStart_eq_ok_iff.mpr (Array.getElem?_eq_getElem inside)⟩

theorem lt_lineCount {map : LineMap} {line : Nat} {start : Location}
    (found : map.lineStart line = .ok start)
    : line < map.lineCount :=
  (Array.getElem?_eq_some_iff.mp (lineStart_eq_ok_iff.mp found)).1

theorem getD_of_lineStart {map : LineMap} {line : Nat} {start : Location}
    (found : map.lineStart line = .ok start)
    : map.starts.getD line 0 = start := by
  rw [Array.getD_eq_getD_getElem?, lineStart_eq_ok_iff.mp found]
  rfl

section OfText

variable {text : List Char} {position start : Location} {line : Nat}

-----------------------------------------------------------------------------------------
-- The line of a position
-----------------------------------------------------------------------------------------

/-- The search passes one line more than the line of the position, so it never ends at once. -/
theorem search_eq_lineOf_add_one (text : List Char) (position : Location)
    : search (ofText text).starts position 0 (ofText text).starts.size
      = (ofText text).lineOf position + 1 := by
  rw [search_ofText, lineOf_eq_count]

theorem lineOf_lt_lineCount (text : List Char) (position : Location)
    : (ofText text).lineOf position < (ofText text).lineCount := by
  have bound := (@search_bounds (ofText text).starts position 0 (ofText text).starts.size
    (Nat.zero_le _)).2
  rwa [search_eq_lineOf_add_one] at bound

/-- A line starts at or before a position exactly if it is not behind the line of the position. -/
theorem start_le_iff (found : (ofText text).lineStart line = .ok start) (position : Location)
    : start ≤ position ↔ line ≤ (ofText text).lineOf position := by
  obtain ⟨before, behind⟩ := search_separates (starts_sorted text) position
  rw [search_eq_lineOf_add_one] at before behind
  have held := getD_of_lineStart found
  constructor
  · intro reached
    by_contra further
    have missed := behind line (Nat.lt_of_not_le further) (lt_lineCount found)
    exact Nat.not_lt.mpr reached (held ▸ missed)
  · intro passed
    exact held ▸ before line (Nat.lt_succ_of_le passed)

/-- The line of a position starts at or before it. -/
theorem exists_start_le (text : List Char) (position : Location)
    : ∃ start,
        (ofText text).lineStart ((ofText text).lineOf position) = .ok start
        ∧ start ≤ position := by
  obtain ⟨start, found⟩ := exists_lineStart (lineOf_lt_lineCount text position)
  exact ⟨start, found, (start_le_iff found position).mpr (Nat.le_refl _)⟩

theorem lineOf_mono {earlier later : Location} (order : earlier ≤ later)
    : (ofText text).lineOf earlier ≤ (ofText text).lineOf later := by
  obtain ⟨start, found, reached⟩ := exists_start_le text earlier
  exact (start_le_iff found later).mp (reached.trans order)

/-- A line is the line of the position at which it starts. -/
theorem lineOf_start (found : (ofText text).lineStart line = .ok start)
    : (ofText text).lineOf start = line := by
  apply Nat.le_antisymm _ ((start_le_iff found start).mp (Nat.le_refl _))
  obtain ⟨other, alsoFound, reached⟩ := exists_start_le text start
  obtain ⟨inside, rfl⟩ := Array.getElem?_eq_some_iff.mp (lineStart_eq_ok_iff.mp found)
  obtain ⟨alsoInside, rfl⟩ := Array.getElem?_eq_some_iff.mp (lineStart_eq_ok_iff.mp alsoFound)
  by_contra further
  have increases := List.pairwise_iff_getElem.mp (starts_sorted text) line _ inside alsoInside
    (Nat.lt_of_not_le further)
  exact Nat.not_le.mpr increases reached

/-- A position at which no line starts belongs right behind the start of its line. -/
theorem insertedAt_of_not_mem (absent : position ∉ (ofText text).starts)
    : InsertedAt (ofText text).starts position ((ofText text).lineOf position + 1) := by
  refine ⟨lineOf_lt_lineCount text position, fun line lower start found => ?_,
    fun line upper start found => ?_⟩
  · have reached := (start_le_iff (lineStart_eq_ok_iff.mpr found) position).mpr
      (Nat.le_of_lt_succ lower)
    apply Nat.lt_of_le_of_ne reached
    rintro rfl
    exact absent (Array.mem_of_getElem? found)
  · by_contra reached
    have passed := (start_le_iff (lineStart_eq_ok_iff.mpr found) position).mp
      (Nat.le_of_not_lt reached)
    exact Nat.not_succ_le_self _ (upper.le.trans passed)

/-- The search hits a position at which a line starts. It misses any other, and then ends behind the
start of its line and so never in front of all starts.
-/
theorem find_cases (text : List Char) (position : Location)
    : find (ofText text).starts position = .hit ((ofText text).lineOf position)
        ∧ (ofText text).starts[(ofText text).lineOf position]? = some position
      ∨ find (ofText text).starts position = .miss ((ofText text).lineOf position + 1)
        ∧ InsertedAt (ofText text).starts position ((ofText text).lineOf position + 1) := by
  obtain ⟨start, found, -⟩ := exists_start_le text position
  have ends : find (ofText text).starts position
      = if start = position then
          .hit ((ofText text).lineOf position)
        else
          .miss ((ofText text).lineOf position + 1) := by
    simp only [find, search_eq_lineOf_add_one, Nat.add_sub_cancel, getD_of_lineStart found,
      Nat.succ_pos, true_and]
  by_cases same : start = position
  · subst same
    exact .inl ⟨ends.trans (if_pos rfl), lineStart_eq_ok_iff.mp found⟩
  · refine .inr ⟨ends.trans (if_neg same), insertedAt_of_not_mem fun member => same ?_⟩
    obtain ⟨line, listed⟩ := Array.mem_iff_getElem?.mp member
    have begins : (ofText text).lineStart line = .ok position := lineStart_eq_ok_iff.mpr listed
    rw [lineOf_start begins] at found
    exact Except.ok.inj (found.symm.trans begins)

-----------------------------------------------------------------------------------------
-- The column of a position
-----------------------------------------------------------------------------------------

/-- A position is as many columns behind the start of its line as it is behind that start. -/
theorem lineColumn_eq_ok_iff {column : Nat}
    : (ofText text).lineColumn position = .ok ⟨line, column⟩
      ↔ (ofText text).lineOf position = line
        ∧ ∃ start, (ofText text).lineStart line = .ok start ∧ start + column = position := by
  obtain ⟨start, found, reached⟩ := exists_start_le text position
  have place : (ofText text).lineColumn position
      = .ok ⟨(ofText text).lineOf position, position - start⟩ := by
    rw [lineColumn, found]
    rfl
  rw [place, Except.ok.injEq, LineColumn.mk.injEq]
  refine and_congr_right fun same => ?_
  subst same
  constructor
  · rintro rfl
    exact ⟨start, found, Nat.add_sub_cancel' reached⟩
  · rintro ⟨other, alsoFound, rfl⟩
    obtain rfl := Except.ok.inj (found.symm.trans alsoFound)
    exact Nat.add_sub_cancel_left start column

/-- A line starts at the one position that has column zero on it. -/
theorem lineColumn_eq_zero_iff (found : (ofText text).lineStart line = .ok start)
    : (ofText text).lineColumn position = .ok ⟨line, 0⟩ ↔ position = start := by
  rw [lineColumn_eq_ok_iff]
  constructor
  · rintro ⟨_, other, alsoFound, rfl⟩
    exact (Except.ok.inj (found.symm.trans alsoFound)).symm
  · rintro rfl
    exact ⟨lineOf_start found, position, found, rfl⟩

end OfText

/-- Lines and columns are exact for every position, also behind the end of the text. The starts are
sorted from zero on, so the search never ends in front of them and its line is one of the text. That
line is the number of line breaks before the position, and its start and the column add up to the
position. Each line starts at the one position with column zero on it, and lines grow with the
positions.
-/
theorem lineColumn_exact {text : List Char} (fits : byteLength text < Location.bound)
    : let map := ofText text
      map.starts.toList.Pairwise (· < ·)
      ∧ map.starts[0]? = some 0
      ∧ (∀ start ∈ map.starts, start < Location.bound)
      ∧ (∀ position,
          (match find map.starts position with
            | .hit index => map.starts[index]? = some position ∧ map.lineOf position = index
            | .miss index =>
                InsertedAt map.starts position index
                ∧ 0 < index
                ∧ map.lineOf position = index - 1)
          ∧ map.lineOf position < map.lineCount
          ∧ map.lineOf position < Location.bound
          ∧ map.lineOf position = ((bytes text).take position).count newline
          ∧ ∃ start column,
              map.lineStart (map.lineOf position) = .ok start
              ∧ start ≤ position
              ∧ map.lineColumn position = .ok ⟨map.lineOf position, column⟩
              ∧ start + column = position)
      ∧ (∀ line < map.lineCount,
          ∃ start,
            map.lineStart line = .ok start
            ∧ ∀ position, map.lineColumn position = .ok ⟨line, 0⟩ ↔ position = start)
      ∧ ∀ earlier later, earlier ≤ later → map.lineOf earlier ≤ map.lineOf later := by
  intro map
  have breaks : ∀ position, map.lineOf position ≤ byteLength text := by
    intro position
    have inside := lineOf_lt_lineCount text position
    rw [lineCount_ofText] at inside
    exact (Nat.le_of_lt_succ inside).trans (count_le_byteLength '\n' text)
  refine ⟨starts_sorted text, ?_, ?_, fun position => ?_, fun line inside => ?_, ?_⟩
  · rw [← Array.getElem?_toList, toList_starts]
    rfl
  · intro start member
    exact Nat.lt_of_le_of_lt (le_of_mem_starts member) fits
  · obtain ⟨start, found, reached⟩ := exists_start_le text position
    have sum : start + (position - start) = position := Nat.add_sub_cancel' reached
    refine ⟨?_, lineOf_lt_lineCount text position, Nat.lt_of_le_of_lt (breaks position) fits,
      lineOf_eq_count text position, start, position - start, found, reached,
      lineColumn_eq_ok_iff.mpr ⟨rfl, start, found, sum⟩, sum⟩
    rcases find_cases text position with ⟨hit, listed⟩ | ⟨miss, inserted⟩
    · rw [hit]
      exact ⟨listed, rfl⟩
    · rw [miss]
      exact ⟨inserted, Nat.succ_pos _, rfl⟩
  · obtain ⟨start, found⟩ := exists_lineStart inside
    exact ⟨start, found, fun position => lineColumn_eq_zero_iff found⟩
  · intro earlier later order
    exact lineOf_mono order

/-- Between two line breaks and behind the end of a text that ends with one. -/
theorem lineColumn_exact_behind
    : let map := ofText "é\n\nb\n".toList
      byteLength "é\n\nb\n".toList < Location.bound
      ∧ map.lineStart 1 = .ok 3
      ∧ (∀ position, map.lineColumn position = .ok ⟨1, 0⟩ ↔ position = 3)
      ∧ map.lineOf 4294967295 = 3
      ∧ map.lineColumn 4294967295 = .ok ⟨3, 4294967289⟩ := by
  intro map
  have fits : byteLength "é\n\nb\n".toList < Location.bound := by decide
  obtain ⟨_, _, _, places, lines, _⟩ := lineColumn_exact fits
  have blank : map.lineStart 1 = .ok 3 := by decide +kernel
  have last : map.lineStart 3 = .ok 6 := by decide +kernel
  obtain ⟨start, found, unique⟩ := lines 1 (by decide +kernel)
  obtain rfl := Except.ok.inj (found.symm.trans blank)
  obtain ⟨_, _, _, count, start, column, begins, _, place, sum⟩ := places 4294967295
  have line : map.lineOf 4294967295 = 3 := count.trans (by decide +kernel)
  rw [line] at begins place
  obtain rfl := Except.ok.inj (begins.symm.trans last)
  obtain rfl : column = 4294967289 := @Nat.add_left_cancel 6 column 4294967289 sum
  exact ⟨fits, blank, unique, line, place⟩

end LetLang.LineMap

import LetLang.Proofs.Text.Utf8
import LetLang.Text.LineMap

/-! Lines of a text. The line map of a text holds the start of each of its lines, in order; the
binary search over them counts the line breaks before an offset, and so finds the very line that a
search backwards from the offset finds.
-/

namespace LetLang

open LetLang.Text

namespace Text

/-- The byte that ends a line. -/
def newline : UInt8 := 0x0a

/-- A position and the line that it stands on: what is above that line, the parts of the line
before and behind the position, and what is below, with the line break.
-/
structure OnLine (text : List Char) (position : Nat) (above lead tail below : List Char)
    : Prop where
  whole : text = above ++ (lead ++ (tail ++ below))
  place : position = byteLength (above ++ lead)
  opening : above = [] ∨ above.getLast? = some '\n'
  single : '\n' ∉ lead ++ tail
  closing : below = [] ∨ below.head? = some '\n'

-----------------------------------------------------------------------------------------
-- Line breaks as bytes
-----------------------------------------------------------------------------------------

/-- A line break is one byte, and no other character has that byte. -/
theorem newline_mem_utf8EncodeChar_iff (c : Char)
    : newline ∈ String.utf8EncodeChar c ↔ c = '\n' := by
  constructor
  · intro member
    suffices code : c.val.toNat = 0x0a by simp [Char.ext_iff, ← UInt32.toNat_inj, code]
    simp only [newline, String.utf8EncodeChar] at member
    (repeat' split at member) <;>
      simp only [List.mem_cons, List.not_mem_nil, or_false, ← UInt8.toNat_inj,
        UInt8.toNat_ofNat', UInt8.reduceToNat] at member <;>
      omega
  · rintro rfl
    decide

theorem count_le_byteLength (c : Char) (text : List Char) : text.count c ≤ byteLength text := by
  induction text with
  | nil => exact Nat.le_refl _
  | cons first rest ih =>
      have width := Char.utf8Size_pos first
      rw [List.count_cons, byteLength_cons]
      split <;> omega

theorem count_newline_bytes (text : List Char) : (bytes text).count newline = text.count '\n' := by
  induction text with
  | nil => rfl
  | cons first rest ih =>
      rw [bytes_cons, List.count_append, ih]
      by_cases same : first = '\n'
      · subst same
        rw [List.count_cons_self, Nat.add_comm]
        rfl
      · rw [List.count_cons_of_ne same,
          List.count_eq_zero.mpr (mt (newline_mem_utf8EncodeChar_iff first).mp same)]
        omega

end Text

namespace LineMap

-----------------------------------------------------------------------------------------
-- The starts of lines
-----------------------------------------------------------------------------------------

/-- Where the lines start that follow the line breaks of a text, which begins at `offset`. -/
def startsFrom (offset : Location) : List Char → List Location
  | [] => []
  | first :: rest =>
      if first = '\n' then
        (offset + 1) :: startsFrom (offset + first.utf8Size) rest
      else
        startsFrom (offset + first.utf8Size) rest

theorem toList_collect (starts : Array Location) (offset : Location) (text : List Char)
    : (collect starts offset text).toList = starts.toList ++ startsFrom offset text := by
  induction text generalizing starts offset with
  | nil => simp [collect, startsFrom]
  | cons first rest ih =>
      rw [collect, startsFrom, ih]
      split <;> simp

theorem toList_starts (text : List Char) : (ofText text).starts.toList = 0 :: startsFrom 0 text :=
  toList_collect #[0] 0 text

theorem startsFrom_append (offset : Location) (left right : List Char)
    : startsFrom offset (left ++ right)
      = startsFrom offset left ++ startsFrom (offset + byteLength left) right := by
  induction left generalizing offset with
  | nil => rfl
  | cons first rest ih =>
      rw [List.cons_append, startsFrom, startsFrom, ih, byteLength_cons, ← Nat.add_assoc]
      split <;> rfl

theorem length_startsFrom (offset : Location) (text : List Char)
    : (startsFrom offset text).length = text.count '\n' := by
  induction text generalizing offset with
  | nil => rfl
  | cons first rest ih =>
      rw [startsFrom, List.count_cons]
      split <;> simp_all

theorem lt_of_mem_startsFrom {offset start : Location} {text : List Char}
    (member : start ∈ startsFrom offset text)
    : offset < start := by
  induction text generalizing offset with
  | nil => cases member
  | cons first rest ih =>
      rw [startsFrom] at member
      split at member
      · rcases List.mem_cons.mp member with rfl | later
        · exact Nat.lt_succ_self offset
        · exact Nat.lt_of_le_of_lt (Nat.le_add_right _ _) (ih later)
      · exact Nat.lt_of_le_of_lt (Nat.le_add_right _ _) (ih member)

theorem startsFrom_sorted (offset : Location) (text : List Char)
    : (startsFrom offset text).Pairwise (· < ·) := by
  induction text generalizing offset with
  | nil => exact .nil
  | cons first rest ih =>
      rw [startsFrom]
      split
      · next same =>
          subst same
          exact List.pairwise_cons.mpr ⟨fun _ later => lt_of_mem_startsFrom later, ih _⟩
      · exact ih _

/-- The lines of a text start in order. -/
theorem starts_sorted (text : List Char) : (ofText text).starts.toList.Pairwise (· < ·) := by
  rw [toList_starts]
  exact List.pairwise_cons.mpr
    ⟨fun _ member => lt_of_mem_startsFrom member, startsFrom_sorted 0 text⟩

/-- As many lines start behind the first one and not after a position as there are line breaks
before it.
-/
theorem countP_startsFrom (offset position : Location) (text : List Char)
    : (startsFrom offset text).countP (· ≤ position)
      = ((bytes text).take (position - offset)).count newline := by
  induction text generalizing offset with
  | nil => simp [startsFrom, bytes]
  | cons first rest ih =>
      have later := ih (offset + first.utf8Size)
      rw [← Nat.sub_sub] at later
      rw [startsFrom, bytes_cons, List.take_append, String.length_utf8EncodeChar,
        List.count_append, ← later]
      split
      · next same =>
          subst same
          have single : String.utf8EncodeChar '\n' = [newline] := by decide
          rw [List.countP_cons, single, Nat.add_comm]
          by_cases before : offset + 1 ≤ position
          · rw [List.take_of_length_le (by simp only [List.length_singleton, Location] at *; omega)]
            simp [before]
          · rw [Nat.sub_eq_zero_of_le (by simp only [Location] at *; omega)]
            simp [before]
      · next other =>
          have none : newline ∉ (String.utf8EncodeChar first).take (position - offset) := by
            intro member
            exact other ((newline_mem_utf8EncodeChar_iff first).mp (List.mem_of_mem_take member))
          rw [List.count_eq_zero.mpr none, Nat.zero_add]

-----------------------------------------------------------------------------------------
-- The search for a line
-----------------------------------------------------------------------------------------

theorem search_bounds {starts : Array Location} {position : Location} {low high : Nat}
    (order : low ≤ high)
    : low ≤ search starts position low high ∧ search starts position low high ≤ high := by
  fun_induction search starts position low high with
  | case1 low high more before ih =>
      have bounds := ih (by omega)
      omega
  | case2 low high more behind ih =>
      have bounds := ih (by omega)
      omega
  | case3 low high finished => exact ⟨Nat.le_refl _, order⟩

theorem getD_eq_getElem {starts : Array Location} {index : Nat}
    (inside : index < starts.toList.length)
    : starts.getD index 0 = starts.toList[index] := by
  rw [Array.getD_eq_getD_getElem?, ← Array.getElem?_toList, List.getElem?_eq_getElem inside]
  rfl

/-- The search ends between the starts that are not after the position and those that are. The
invariant of the loop is that of the two hypotheses: `low` has passed only the former and `high`
only the latter.
-/
theorem search_spec {starts : Array Location} (sorted : starts.toList.Pairwise (· < ·))
    (position : Location) {low high : Nat} (order : low ≤ high) (within : high ≤ starts.size)
    (before : ∀ index < low, starts.getD index 0 ≤ position)
    (behind : ∀ index, high ≤ index → index < starts.size → position < starts.getD index 0)
    : (∀ index < search starts position low high, starts.getD index 0 ≤ position)
      ∧ ∀ index, search starts position low high ≤ index → index < starts.size
          → position < starts.getD index 0 := by
  have increases : ∀ {left right}, left ≤ right → right < starts.size
      → starts.getD left 0 ≤ starts.getD right 0 := by
    intro left right order inside
    rcases Nat.eq_or_lt_of_le order with rfl | further
    · exact Nat.le_refl _
    · rw [getD_eq_getElem (Nat.lt_trans further inside), getD_eq_getElem inside]
      exact Nat.le_of_lt (List.pairwise_iff_getElem.mp sorted left right _ inside further)
  fun_induction search starts position low high with
  | case1 low high more reached ih =>
      apply ih (by omega) within
      · intro index lower
        exact (increases (by omega) (by omega)).trans reached
      · exact behind
  | case2 low high more missed ih =>
      apply ih (by omega) (by omega) before
      intro index lower inside
      exact Nat.lt_of_lt_of_le (Nat.lt_of_not_le missed) (increases lower inside)
  | case3 low high finished =>
      obtain rfl : low = high := by omega
      exact ⟨before, behind⟩

/-- Of all starts, those that the search passes are not after the position. -/
theorem search_separates {starts : Array Location} (sorted : starts.toList.Pairwise (· < ·))
    (position : Location)
    : (∀ index < search starts position 0 starts.size, starts.getD index 0 ≤ position)
      ∧ ∀ index, search starts position 0 starts.size ≤ index → index < starts.size
          → position < starts.getD index 0 :=
  search_spec sorted position (Nat.zero_le _) (Nat.le_refl _) (by simp)
    (fun _ lower inside => absurd inside (Nat.not_lt.mpr lower))

/-- The search counts the starts that are not after the position. -/
theorem search_eq_countP {starts : Array Location} (sorted : starts.toList.Pairwise (· < ·))
    (position : Location)
    : search starts position 0 starts.size = starts.toList.countP (· ≤ position) := by
  obtain ⟨before, behind⟩ := search_separates sorted position
  have bound := (@search_bounds starts position 0 starts.size (Nat.zero_le _)).2
  generalize search starts position 0 starts.size = found at *
  rw [← Array.length_toList] at bound behind
  have all : (starts.toList.take found).countP (· ≤ position) = found := by
    rw [List.countP_eq_length.mpr, List.length_take, Nat.min_eq_left bound]
    intro start member
    obtain ⟨index, inside, rfl⟩ := List.mem_iff_getElem.mp member
    rw [List.length_take] at inside
    rw [List.getElem_take, ← getD_eq_getElem]
    exact decide_eq_true (before index (by omega))
  have none : (starts.toList.drop found).countP (· ≤ position) = 0 := by
    rw [List.countP_eq_zero]
    intro start member
    obtain ⟨index, inside, rfl⟩ := List.mem_iff_getElem.mp member
    rw [List.length_drop] at inside
    rw [List.getElem_drop, ← getD_eq_getElem, decide_eq_true_eq, Nat.not_le]
    exact behind (found + index) (Nat.le_add_right _ _) (by omega)
  rw [← List.take_append_drop found starts.toList, List.countP_append, all, none, Nat.add_zero]

/-- The search passes the start of the text and one line for each line break before the position. -/
theorem search_ofText (text : List Char) (position : Location)
    : search (ofText text).starts position 0 (ofText text).starts.size
      = ((bytes text).take position).count newline + 1 := by
  rw [search_eq_countP (starts_sorted text), toList_starts, List.countP_cons, countP_startsFrom,
    Nat.sub_zero]
  simp

/-- The line of a position is the last one that the search passes, whether or not it is a hit. -/
theorem lineOf_eq_search (map : LineMap) (position : Location)
    : map.lineOf position = search map.starts position 0 map.starts.size - 1 := by
  have ends : find map.starts position = .hit (search map.starts position 0 map.starts.size - 1)
      ∨ find map.starts position = .miss (search map.starts position 0 map.starts.size) :=
    ite_eq_or_eq _ _ _
  rcases ends with hit | miss
  · rw [lineOf, hit]
  · rw [lineOf, miss]

/-- The line of a position is the number of line breaks before it. -/
theorem lineOf_eq_count (text : List Char) (position : Location)
    : (ofText text).lineOf position = ((bytes text).take position).count newline := by
  rw [lineOf_eq_search, search_ofText, Nat.add_sub_cancel]

/-- A line that starts the text or follows a line break starts where the map says. -/
theorem lineStart_of_append {above below : List Char}
    (opening : above = [] ∨ above.getLast? = some '\n')
    : (ofText (above ++ below)).lineStart (above.count '\n') = .ok (byteLength above) := by
  suffices found : (ofText (above ++ below)).starts[above.count '\n']? = some (byteLength above) by
    rw [lineStart, found]
  rw [← Array.getElem?_toList, toList_starts, startsFrom_append]
  rcases opening with rfl | last
  · rfl
  · obtain ⟨line, rfl⟩ := List.getLast?_eq_some_iff.mp last
    have width : '\n'.utf8Size = 1 := by decide
    rw [List.count_append, List.count_singleton_self, List.getElem?_cons_succ,
      startsFrom_append, List.append_assoc,
      List.getElem?_append_right (by simp [length_startsFrom]), length_startsFrom, Nat.sub_self]
    simp [startsFrom, width]

end LineMap

theorem LineColumn.display_eq {line column : Nat} (lineFits : line + 1 < Location.bound)
    (columnFits : column + 1 < Location.bound)
    : LineColumn.display ⟨line, column⟩
      = .ok (toString (line + 1) ++ ":" ++ toString (column + 1)) := by
  simp only [display, Location.add, lineFits, columnFits, if_true, bind, Except.bind, pure,
    Except.pure]

namespace Text.OnLine

variable {text above lead tail below : List Char} {position : Nat}

/-- A line goes on up to the next line break. -/
theorem tail_eq (line : OnLine text position above lead tail below)
    : tail = (tail ++ below).takeWhile (· ≠ '\n') := by
  have inside : ∀ c ∈ tail, decide (c ≠ '\n') = true := by
    intro c member
    apply decide_eq_true
    rintro rfl
    exact line.single (List.mem_append_right _ member)
  have stops : below.takeWhile (· ≠ '\n') = [] := by
    rcases line.closing with rfl | first
    · rfl
    · obtain ⟨rest, rfl⟩ := List.head?_eq_some_iff.mp first
      rfl
  rw [List.takeWhile_append_of_pos inside, stops, List.append_nil]

/-- What stands before a position, other than a line break, stands on its line. -/
theorem getLast?_eq_some_iff (line : OnLine text position above lead tail below) {c : Char}
    (other : c ≠ '\n')
    : (above ++ lead).getLast? = some c ↔ lead.getLast? = some c := by
  cases last : lead.getLast? with
  | some final => simp [List.getLast?_append, last]
  | none =>
      rcases line.opening with rfl | broken
      · simp [last]
      · simp [List.getLast?_append, last, broken, other.symm]

/-- All line breaks before a position are above its line. -/
theorem count_eq (line : OnLine text position above lead tail below)
    : ((bytes text).take position).count newline = above.count '\n' := by
  have none : '\n' ∉ lead := fun member => line.single (List.mem_append_left _ member)
  rw [line.whole, line.place, ← List.append_assoc, bytes_append, ← length_bytes, List.take_left,
    count_newline_bytes, List.count_append, List.count_eq_zero.mpr none, Nat.add_zero]

/-- The search for the line of a position finds where that line starts. -/
theorem lineStart_lineOf (line : OnLine text position above lead tail below)
    : (LineMap.ofText text).lineStart ((LineMap.ofText text).lineOf position)
      = .ok (byteLength above) := by
  rw [LineMap.lineOf_eq_count, line.count_eq, line.whole]
  exact LineMap.lineStart_of_append line.opening

theorem lineColumn_eq (line : OnLine text position above lead tail below)
    : (LineMap.ofText text).lineColumn position
      = .ok ⟨((bytes text).take position).count newline, position - byteLength above⟩ := by
  rw [LineMap.lineColumn, line.lineStart_lineOf, LineMap.lineOf_eq_count]
  rfl

end Text.OnLine

end LetLang

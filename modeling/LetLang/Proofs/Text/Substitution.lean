import LetLang.Text.Template
import Mathlib.Data.List.Basic
import Mathlib.Data.List.Induction

/-! Putting arguments into a template one after the other, beside putting them in all at once. The
two agree as long as no argument can take part in the placeholder of a later one.
-/

namespace LetLang.Text

-----------------------------------------------------------------------------------------
-- Placeholders
-----------------------------------------------------------------------------------------

/-- The index of the placeholder that a text starts with, and what stands behind it. -/
def placeholder? : List Char → Option (Nat × List Char)
  | '\x7b' :: text =>
      match text.dropWhile Char.isDigit with
      | '\x7d' :: rest =>
          let digits := text.takeWhile Char.isDigit
          let index := Nat.ofDigitChars 10 digits 0
          -- A numeral with a zero in front is the index of nothing.
          if Nat.toDigits 10 index = digits then some (index, rest) else none
      | _ => none
  | _ => none

theorem placeholder_eq_cons (index : Nat)
    : placeholder index = '\x7b' :: (Nat.toDigits 10 index ++ ['\x7d']) := rfl

theorem isDigit_of_mem_numeral {index : Nat} {digit : Char} (member : digit ∈ Nat.toDigits 10 index)
    : digit.isDigit = true :=
  Nat.isDigit_of_mem_toDigits (by decide) (by decide) member

/-- Only the first character of a placeholder is an opening brace. -/
theorem opening_not_mem_tail (index : Nat) : '\x7b' ∉ (placeholder index).tail := by
  intro member
  rcases List.mem_append.mp member with digit | closing
  · exact absurd (isDigit_of_mem_numeral digit) (by decide)
  · exact absurd closing (by decide)

theorem placeholder?_append (index : Nat) (rest : List Char)
    : placeholder? (placeholder index ++ rest) = some (index, rest) := by
  have digits : ∀ digit ∈ Nat.toDigits 10 index, digit.isDigit = true :=
    fun _ => isDigit_of_mem_numeral
  rw [placeholder_eq_cons, List.cons_append, List.append_assoc, placeholder?,
    List.dropWhile_append_of_pos digits, List.takeWhile_append_of_pos digits]
  simp [Nat.ofDigitChars_toDigits]

theorem placeholder?_eq_some_iff {text rest : List Char} {index : Nat}
    : placeholder? text = some (index, rest) ↔ text = placeholder index ++ rest := by
  constructor
  · intro found
    unfold placeholder? at found
    split at found
    · next text =>
        split at found
        · next behind after =>
            simp only [Option.ite_none_right_eq_some, Option.some.injEq, Prod.mk.injEq] at found
            obtain ⟨numeral, rfl, rfl⟩ := found
            have whole := text.takeWhile_append_dropWhile (p := Char.isDigit)
            rw [after, ← numeral] at whole
            rw [placeholder_eq_cons, List.cons_append, List.append_assoc]
            exact congrArg _ whole.symm
        · cases found
    · cases found
  · rintro rfl
    exact placeholder?_append index rest

/-- A text starts with one placeholder at most. -/
theorem eq_of_placeholder_append_eq {left right : Nat} {rest others : List Char}
    (same : placeholder left ++ rest = placeholder right ++ others)
    : left = right := by
  have found := placeholder?_append left rest
  rw [same, placeholder?_append] at found
  exact (Prod.mk.inj (Option.some.inj found)).1.symm

-----------------------------------------------------------------------------------------
-- All arguments at once
-----------------------------------------------------------------------------------------

/-- The argument whose placeholder a text starts with, and what stands behind it. -/
def leading? (arguments : List String) (text : List Char) : Option (String × List Char) :=
  (placeholder? text).bind fun found => arguments[found.1]?.map fun argument => (argument, found.2)

theorem leading?_eq_some_iff {arguments : List String} {text rest : List Char} {argument : String}
    : leading? arguments text = some (argument, rest)
      ↔ ∃ index : Nat, arguments[index]? = some argument ∧ text = placeholder index ++ rest := by
  simp only [leading?, Option.bind_eq_some_iff, Option.map_eq_some_iff, Prod.mk.injEq]
  constructor
  · rintro ⟨⟨index, rest⟩, found, argument, known, rfl, rfl⟩
    exact ⟨index, known, placeholder?_eq_some_iff.mp found⟩
  · rintro ⟨index, known, rfl⟩
    exact ⟨(index, rest), placeholder?_append index rest, argument, known, rfl, rfl⟩

theorem leading?_length_lt {arguments : List String} {text rest : List Char} {argument : String}
    (found : leading? arguments text = some (argument, rest))
    : rest.length < text.length := by
  obtain ⟨index, _, rfl⟩ := leading?_eq_some_iff.mp found
  simp only [placeholder_eq_cons, List.length_append, List.length_cons]
  omega

/-- Goes over a template once, from left to right: the placeholder of an argument becomes that
argument, and everything else is copied.
-/
def substitute (arguments : List String) (template : List Char) : List Char :=
  match template with
  | [] => []
  | first :: rest =>
      match _found : leading? arguments (first :: rest) with
      | some (argument, behind) => argument.toList ++ substitute arguments behind
      | none => first :: substitute arguments rest
termination_by template.length
decreasing_by
  · exact leading?_length_lt _found
  · simp

/-- Puts all arguments in place of their placeholders at once. -/
def fillAtOnce (template : String) (arguments : List String) : String :=
  String.ofList (substitute arguments template.toList)

section

variable {arguments : List String}

@[simp]
theorem substitute_nil : substitute arguments [] = [] := by
  rw [substitute]

theorem substitute_placeholder {index : Nat} {argument : String}
    (known : arguments[index]? = some argument) (rest : List Char)
    : substitute arguments (placeholder index ++ rest)
      = argument.toList ++ substitute arguments rest := by
  have found := leading?_eq_some_iff.mpr ⟨index, known, Eq.refl (placeholder index ++ rest)⟩
  rw [placeholder_eq_cons, List.cons_append] at found ⊢
  rw [substitute]
  split
  · next both =>
      rw [found] at both
      cases both
      rfl
  · next none =>
      rw [found] at none
      cases none

/-- No argument's placeholder stands at the start of a text. -/
def Free (arguments : List String) (text : List Char) : Prop :=
  ∀ index < arguments.length, ¬placeholder index <+: text

theorem free_iff {text : List Char} : Free arguments text ↔ leading? arguments text = none := by
  rw [Option.eq_none_iff_forall_ne_some]
  constructor
  · rintro free ⟨argument, rest⟩ found
    obtain ⟨index, known, rfl⟩ := leading?_eq_some_iff.mp found
    exact free index (List.getElem?_eq_some_iff.mp known).1 (List.prefix_append _ _)
  · rintro none index inside ⟨rest, rfl⟩
    exact none (arguments[index], rest)
      (leading?_eq_some_iff.mpr ⟨index, List.getElem?_eq_getElem inside, rfl⟩)

theorem substitute_cons {first : Char} {rest : List Char} (free : Free arguments (first :: rest))
    : substitute arguments (first :: rest) = first :: substitute arguments rest := by
  rw [substitute]
  split
  · next both =>
      rw [free_iff.mp free] at both
      cases both
  · rfl

theorem free_cons_of_ne {first : Char} (other : first ≠ '\x7b') (rest : List Char)
    : Free arguments (first :: rest) := by
  rintro index _ ⟨behind, same⟩
  exact other (List.cons.inj same).1.symm

/-- Text without an opening brace is copied. -/
theorem substitute_append (arguments : List String) {text : List Char} (plain : '\x7b' ∉ text)
    (rest : List Char)
    : substitute arguments (text ++ rest) = text ++ substitute arguments rest := by
  induction text with
  | nil => rfl
  | cons first others ih =>
      have other : first ≠ '\x7b' := fun same => plain (same ▸ List.mem_cons_self)
      rw [List.cons_append, substitute_cons (free_cons_of_ne other _),
        ih (mt (List.mem_cons_of_mem _) plain), List.cons_append]

theorem substitute_plain (arguments : List String) {text : List Char} (plain : '\x7b' ∉ text)
    : substitute arguments text = text := by
  have copied := substitute_append arguments plain []
  rwa [List.append_nil, substitute_nil, List.append_nil] at copied

/-- The placeholder of no argument is copied. -/
theorem substitute_placeholder_behind {index : Nat} (behind : arguments.length ≤ index)
    (rest : List Char)
    : substitute arguments (placeholder index ++ rest)
      = placeholder index ++ substitute arguments rest := by
  have free : Free arguments (placeholder index ++ rest) := by
    rintro other inside ⟨others, same⟩
    have := eq_of_placeholder_append_eq same
    omega
  have tail := substitute_append arguments (opening_not_mem_tail index) rest
  rw [placeholder_eq_cons] at free tail ⊢
  rw [List.cons_append, substitute_cons free, List.tail_cons] at *
  rw [tail, List.cons_append]

theorem substitute_without_arguments (text : List Char) : substitute [] text = text := by
  induction text with
  | nil => exact substitute_nil
  | cons first rest ih =>
      rw [substitute_cons (fun _ inside => absurd inside (Nat.not_lt_zero _)), ih]

end

-----------------------------------------------------------------------------------------
-- One pattern at a time
-----------------------------------------------------------------------------------------

section

variable {pattern replacement : List Char}

@[simp]
theorem replaceAll_nil : replaceAll pattern replacement [] = [] := by
  rw [replaceAll, replaceFrom, List.reverse_nil]

theorem replaceAll_append_self (solid : pattern ≠ []) (rest : List Char)
    : replaceAll pattern replacement (pattern ++ rest)
      = replacement ++ replaceAll pattern replacement rest := by
  obtain ⟨first, others, rfl⟩ := List.exists_cons_of_ne_nil solid
  have starts : (first :: others).isPrefixOf (first :: (others ++ rest)) = true :=
    List.isPrefixOf_iff_prefix.mpr (List.prefix_append (first :: others) rest)
  rw [List.cons_append, replaceAll, replaceFrom, if_pos starts, replaceFrom_eq_append]
  simp [replaceAll]

theorem replaceAll_cons {first : Char} {rest : List Char} (free : ¬pattern <+: first :: rest)
    : replaceAll pattern replacement (first :: rest)
      = first :: replaceAll pattern replacement rest := by
  rw [replaceAll, replaceFrom, if_neg (mt List.isPrefixOf_iff_prefix.mp free),
    replaceFrom_eq_append]
  rfl

end

/-- Whatever stands around `text`, a `pattern` that occurs there lies before it or behind it. -/
def Apart (pattern text : List Char) : Prop :=
  ∀ before after left right,
    before ++ text ++ after = left ++ pattern ++ right
    → left.length + pattern.length ≤ before.length
      ∨ before.length + text.length ≤ left.length

/-- Text that is apart from a pattern is kept when the pattern is replaced. -/
theorem replaceAll_append {pattern text : List Char} (apart : Apart pattern text)
    (solid : pattern ≠ []) (replacement rest : List Char)
    : replaceAll pattern replacement (text ++ rest)
      = text ++ replaceAll pattern replacement rest := by
  -- The induction is on what is left of the text, since only the whole text is apart.
  suffices copied : ∀ done todo, text = done ++ todo
      → replaceAll pattern replacement (todo ++ rest)
        = todo ++ replaceAll pattern replacement rest from
    copied [] text rfl
  intro done todo
  induction todo generalizing done with
  | nil => exact fun _ => rfl
  | cons first todo ih =>
      intro whole
      have free : ¬pattern <+: first :: (todo ++ rest) := by
        rintro ⟨behind, same⟩
        have length := List.length_pos_iff.mpr solid
        have occurs : [] ++ text ++ rest = done ++ pattern ++ behind := by
          simp [whole, same]
        have sizes := congrArg List.length whole
        have outside := apart [] rest done behind occurs
        simp only [List.length_append, List.length_cons, List.length_nil] at sizes outside
        omega
      rw [List.cons_append, replaceAll_cons free, ih (done ++ [first]) (by simp [whole]),
        List.cons_append]

/-- The rest of a pattern that starts before a text with arguments put in is that of the template
already.
-/
theorem prefix_of_prefix_substitute {arguments : List String} {pattern : List Char}
    (apart : ∀ argument ∈ arguments, Apart pattern argument.toList) (text : List Char)
    {before rest : List Char} (whole : pattern = before ++ rest) (begun : before ≠ [])
    (starts : rest <+: substitute arguments text)
    : rest <+: text := by
  fun_induction substitute arguments text generalizing before rest with
  | case1 => exact starts
  | case2 first text argument behind found _ =>
      -- Here the pattern would reach into the argument.
      obtain ⟨index, known, _⟩ := leading?_eq_some_iff.mp found
      obtain ⟨others, same⟩ := starts
      have outside := apart argument (List.mem_of_getElem? known) before
        (substitute arguments behind) [] others (by simp [whole, same])
      have length := List.length_pos_iff.mpr begun
      have sizes := congrArg List.length whole
      simp only [List.length_append, List.length_nil] at outside sizes
      have nothing : rest = [] := List.length_eq_zero_iff.mp (by omega)
      rw [nothing]
      exact List.nil_prefix
  | case3 first text _ ih =>
      cases rest with
      | nil => exact List.nil_prefix
      | cons next rest =>
          obtain ⟨rfl, later⟩ := List.cons_prefix_cons.mp starts
          have further : pattern = (before ++ [next]) ++ rest := by
            rw [whole, List.append_cons]
          exact List.cons_prefix_cons.mpr ⟨rfl, ih further (by simp) later⟩

/-- A last argument can be put in when the others are in already. -/
theorem substitute_append_singleton {arguments : List String} (argument : String)
    (apart : ∀ earlier ∈ arguments, Apart (placeholder arguments.length) earlier.toList)
    (text : List Char)
    : substitute (arguments ++ [argument]) text
      = replaceAll (placeholder arguments.length) argument.toList (substitute arguments text) := by
  have solid : placeholder arguments.length ≠ [] := List.cons_ne_nil _ _
  fun_induction substitute (arguments ++ [argument]) text with
  | case1 => simp
  | case2 first text found behind leads ih =>
      obtain ⟨index, known, whole⟩ := leading?_eq_some_iff.mp leads
      rw [whole, ih]
      rcases Nat.lt_or_ge index arguments.length with earlier | last
      · rw [List.getElem?_append_left earlier] at known
        rw [substitute_placeholder known,
          replaceAll_append (apart found (List.mem_of_getElem? known)) solid]
      · have bound := (List.getElem?_eq_some_iff.mp known).1
        obtain rfl : index = arguments.length := by simp at bound; omega
        obtain rfl : argument = found := by simpa using known
        rw [substitute_placeholder_behind (Nat.le_refl _), replaceAll_append_self solid]
  | case3 first text none ih =>
      have free := free_iff.mpr none
      have others : Free arguments (first :: text) :=
        fun index inside => free index (by simp; omega)
      have late : ¬placeholder arguments.length <+: first :: substitute arguments text := by
        intro starts
        rw [placeholder_eq_cons] at starts
        obtain ⟨rfl, later⟩ := List.cons_prefix_cons.mp starts
        have already := prefix_of_prefix_substitute apart text
          (placeholder_eq_cons arguments.length) (List.cons_ne_nil _ []) later
        exact free arguments.length (by simp) (List.cons_prefix_cons.mpr ⟨rfl, already⟩)
      rw [substitute_cons others, replaceAll_cons late, ih]

-----------------------------------------------------------------------------------------
-- One argument after the other
-----------------------------------------------------------------------------------------

/-- No argument can take part in the placeholder of a later one. -/
def Harmless (arguments : List String) : Prop :=
  ∀ index < arguments.length, ∀ earlier ∈ arguments.take index,
    Apart (placeholder index) earlier.toList

theorem fillFrom_append (index : Nat) (text : List Char) (left right : List String)
    : fillFrom index text (left ++ right)
      = fillFrom (index + left.length) (fillFrom index text left) right := by
  induction left generalizing index text with
  | nil => rfl
  | cons argument rest ih =>
      rw [List.cons_append, fillFrom, ih, fillFrom, List.length_cons, Nat.add_right_comm,
        Nat.add_assoc]

/-- By induction on the arguments from the last one, whose placeholder none of the others can take
part in.
-/
theorem fillFrom_eq_substitute {arguments : List String} (harmless : Harmless arguments)
    (text : List Char)
    : fillFrom 0 text arguments = substitute arguments text := by
  induction arguments using List.reverseRecOn with
  | nil => exact (substitute_without_arguments text).symm
  | append_singleton earlier last ih =>
      have among : Harmless earlier := by
        intro index inside other member
        refine harmless index (by simp; omega) other ?_
        rwa [List.take_append_of_le_length (Nat.le_of_lt inside)]
      have apart : ∀ other ∈ earlier, Apart (placeholder earlier.length) other.toList := by
        intro other member
        exact harmless earlier.length (by simp) other (by simpa using member)
      rw [fillFrom_append, ih among, substitute_append_singleton last apart, Nat.zero_add]
      rfl

/-- Of two arguments, the first one counts. -/
theorem harmless_pair {first : String} (apart : Apart (placeholder 1) first.toList) (last : String)
    : Harmless [first, last] := by
  intro index inside earlier member
  match index with
  | 0 => cases member
  | 1 =>
      obtain rfl := List.mem_singleton.mp member
      exact apart
  | _ + 2 => exact absurd inside (by simp)

theorem harmless_singleton (argument : String) : Harmless [argument] := by
  intro index inside earlier member
  obtain rfl : index = 0 := Nat.lt_one_iff.mp inside
  cases member

/-- A character of one part of a text stands in every part that covers its place. -/
theorem mem_of_overlap {before text after left pattern right : List Char}
    (same : before ++ text ++ after = left ++ pattern ++ right) {place : Nat} {c : Char}
    (here : pattern[place]? = some c) (behind : before.length ≤ left.length + place)
    (inside : left.length + place < before.length + text.length)
    : c ∈ text := by
  have bound := (List.getElem?_eq_some_iff.mp here).1
  have there := congrArg (fun whole => whole[left.length + place]?) same
  simp only [List.append_assoc] at there
  rw [List.getElem?_append_right behind, List.getElem?_append_left (by omega),
    List.getElem?_append_right (by omega), Nat.add_sub_cancel_left,
    List.getElem?_append_left bound, here] at there
  exact List.mem_of_getElem? there

/-- A text without braces that holds more than digits is apart from every placeholder. -/
theorem apart_of_plain {text : List Char} (opening : '\x7b' ∉ text) (closing : '\x7d' ∉ text)
    {c : Char} (member : c ∈ text) (other : c.isDigit = false) (index : Nat)
    : Apart (placeholder index) text := by
  intro before after left right same
  obtain ⟨place, here⟩ := List.getElem?_of_mem member
  have bound := (List.getElem?_eq_some_iff.mp here).1
  have foreign : c ∉ placeholder index := by
    intro among
    rw [placeholder_eq_cons] at among
    rcases List.mem_cons.mp among with rfl | among
    · exact opening member
    rcases List.mem_append.mp among with digit | last
    · simp [isDigit_of_mem_numeral digit] at other
    · obtain rfl := List.mem_singleton.mp last
      exact closing member
  have first : (placeholder index)[0]? = some '\x7b' := rfl
  have last : (placeholder index)[(placeholder index).length - 1]? = some '\x7d' := by
    simp [placeholder_eq_cons]
  have length : 0 < (placeholder index).length := Nat.succ_pos _
  by_contra meets
  -- The character is not in the placeholder, so one of the two braces is in the text.
  rcases Nat.lt_or_ge (before.length + place) left.length with less | more
  · exact opening (mem_of_overlap same first (by omega) (by omega))
  rcases Nat.lt_or_ge (before.length + place) (left.length + (placeholder index).length)
    with less | more
  · exact foreign (mem_of_overlap same.symm here more less)
  · exact closing (mem_of_overlap same last (by omega) (by omega))

-----------------------------------------------------------------------------------------
-- Arguments that take part in a placeholder
-----------------------------------------------------------------------------------------

/-- Around a text that is not apart from a pattern, parts of the pattern can stand that make the
pattern occur.
-/
theorem exists_context {pattern text : List Char} (meets : ¬Apart pattern text)
    : ∃ before after,
        pattern <:+: before ++ text ++ after
        ∧ before <+: pattern.dropLast
        ∧ after <:+ pattern.tail := by
  simp only [Apart, not_forall, not_or, Nat.not_le] at meets
  obtain ⟨before, after, left, right, same, inside, beyond⟩ := meets
  rw [List.append_assoc, List.append_assoc] at same
  rcases List.append_eq_append_iff.mp same with ⟨gap, rfl, shared⟩ | ⟨begun, rfl, shared⟩
  · -- The pattern starts in the text.
    rw [← List.append_assoc] at shared
    rcases List.append_eq_append_iff.mp shared with ⟨more, whole, _⟩ | ⟨more, whole, _⟩
    · refine ⟨[], more, ⟨gap, [], by simp [whole]⟩, List.nil_prefix, ?_⟩
      have behind : pattern.tail <:+ text ++ more :=
        (List.tail_suffix pattern).trans (whole ▸ List.suffix_append gap pattern)
      have sizes := congrArg List.length whole
      simp only [List.length_append] at sizes beyond
      exact List.suffix_of_suffix_length_le (List.suffix_append text more) behind
        (by rw [List.length_tail]; omega)
    · exact ⟨[], [], ⟨gap, more, by simp [whole]⟩, List.nil_prefix, List.nil_suffix⟩
  · -- The pattern starts before the text.
    rw [← List.append_assoc] at shared
    simp only [List.length_append] at inside beyond
    have front : ∀ {others}, begun <+: others → pattern <+: others
        → begun <+: pattern.dropLast := by
      intro others one two
      exact List.prefix_of_prefix_length_le one ((List.dropLast_prefix _).trans two)
        (by rw [List.length_dropLast]; omega)
    rcases List.append_eq_append_iff.mp shared with ⟨more, whole, _⟩ | ⟨more, whole, _⟩
    · exact ⟨begun, [], ⟨[], more, by simp [whole]⟩,
        front (List.prefix_append _ text) (whole ▸ List.prefix_append _ _), List.nil_suffix⟩
    · refine ⟨begun, more, ⟨[], [], by simp [whole]⟩,
        front (whole ▸ by simp) (List.prefix_refl _), ?_⟩
      have sizes := congrArg List.length whole
      simp only [List.length_append] at sizes
      exact List.suffix_of_suffix_length_le (whole ▸ List.suffix_append _ _)
        (List.tail_suffix pattern) (by rw [List.length_tail]; omega)

theorem closing_not_mem_dropLast (index : Nat) : '\x7d' ∉ (placeholder index).dropLast := by
  rw [placeholder_eq_cons, ← List.cons_append, List.dropLast_concat]
  intro member
  rcases List.mem_cons.mp member with opening | digit
  · exact absurd opening (by decide)
  · exact absurd (isDigit_of_mem_numeral digit) (by decide)

/-- Text without a closing brace is copied if a placeholder follows. -/
theorem substitute_append_placeholder {arguments : List String} {text : List Char}
    (unclosed : '\x7d' ∉ text) (index : Nat) (rest : List Char)
    : substitute arguments (text ++ (placeholder index ++ rest))
      = text ++ substitute arguments (placeholder index ++ rest) := by
  induction text with
  | nil => rfl
  | cons first others ih =>
      have free : Free arguments (first :: (others ++ (placeholder index ++ rest))) := by
        rintro other _ ⟨behind, same⟩
        have closed : '\x7d' ∈ placeholder other := by simp [placeholder]
        rw [← List.cons_append] at same
        rcases List.append_eq_append_iff.mp same with ⟨within, whole, _⟩ | ⟨within, whole, later⟩
        · exact unclosed (whole ▸ List.mem_append_left _ closed)
        · cases within with
          | nil => exact unclosed (by simpa [whole] using closed)
          | cons next within =>
              -- The next character opens a placeholder, so it is not in the tail of another one.
              obtain rfl : '\x7b' = next := (List.cons.inj later).1
              exact opening_not_mem_tail other (by simp [whole])
      rw [List.cons_append, substitute_cons free, ih (mt (List.mem_cons_of_mem _) unclosed),
        List.cons_append]

/-- Replacing by something shorter makes a text shorter, unless there is nothing to replace. -/
theorem length_replaceAll_lt_or {pattern replacement : List Char}
    (shorter : replacement.length < pattern.length) (text : List Char)
    : (replaceAll pattern replacement text).length < text.length
      ∨ replaceAll pattern replacement text = text ∧ ¬pattern <:+: text := by
  have solid : pattern ≠ [] := List.ne_nil_of_length_pos (by omega)
  match text with
  | [] => exact .inr ⟨replaceAll_nil, mt List.infix_nil.mp solid⟩
  | first :: rest =>
      by_cases starts : pattern <+: first :: rest
      · obtain ⟨behind, whole⟩ := starts
        have later := length_replaceAll_lt_or shorter behind
        rw [← whole, replaceAll_append_self solid, List.length_append, List.length_append]
        left
        rcases later with less | ⟨same, _⟩
        · omega
        · rw [same]
          omega
      · rw [replaceAll_cons starts, List.length_cons, List.length_cons]
        rcases length_replaceAll_lt_or shorter rest with less | ⟨same, absent⟩
        · exact .inl (Nat.succ_lt_succ less)
        · rw [same]
          exact .inr ⟨rfl, fun within => (List.infix_cons_iff.mp within).elim starts absent⟩
termination_by text.length
decreasing_by
  · have length := congrArg List.length whole
    simp only [List.length_append] at length
    omega
  · simp

/-- Blanks make a text shorter, unless it holds none of their placeholders. -/
theorem length_fillFrom_blanks_lt_or (index count : Nat) (text : List Char)
    : (fillFrom index text (List.replicate count " ")).length < text.length
      ∨ fillFrom index text (List.replicate count " ") = text
        ∧ ∀ other, index ≤ other → other < index + count → ¬placeholder other <:+: text := by
  induction count generalizing index text with
  | zero => exact .inr ⟨rfl, fun other least below => absurd least (by omega)⟩
  | succ count ih =>
      rw [List.replicate_succ, fillFrom]
      have shorter : " ".toList.length < (placeholder index).length := by
        simp [placeholder_eq_cons]
      rcases length_replaceAll_lt_or shorter text with less | ⟨same, absent⟩
      · left
        rcases ih (index + 1) (replaceAll (placeholder index) " ".toList text) with
          lesser | ⟨kept, _⟩
        · omega
        · rw [kept]
          exact less
      · rw [same]
        rcases ih (index + 1) text with less | ⟨kept, others⟩
        · exact .inl less
        · refine .inr ⟨kept, ?_⟩
          intro other least below
          rcases Nat.eq_or_lt_of_le least with rfl | more
          · exact absent
          · exact others other more (by omega)

/-- In front of an argument, blanks are harmless. -/
theorem harmless_blanks (count : Nat) (argument : String)
    : Harmless (List.replicate count " " ++ [argument]) := by
  intro index inside earlier member
  rw [List.length_append, List.length_replicate, List.length_singleton] at inside
  rw [List.take_append_of_le_length (by simp; omega)] at member
  obtain rfl := List.eq_of_mem_replicate (List.mem_of_mem_take member)
  exact apart_of_plain (by decide) (by decide) (List.mem_singleton_self ' ') (by decide) index

/-- An argument that can take part in a later placeholder does so in some template. -/
theorem exists_fillFrom_ne (before behind : Nat) {later : Nat} {argument : String}
    (above : before < later) (below : later ≤ before + behind)
    (meets : ¬Apart (placeholder later) argument.toList)
    : ∃ text,
        fillFrom 0 text (List.replicate before " " ++ argument :: List.replicate behind " ")
        ≠ substitute (List.replicate before " " ++ argument :: List.replicate behind " ") text := by
  obtain ⟨left, right, occurs, front, back⟩ := exists_context meets
  have unclosed : '\x7d' ∉ left := fun member => closing_not_mem_dropLast later (front.mem member)
  have unopened : '\x7b' ∉ right := fun member => opening_not_mem_tail later (back.mem member)
  -- In one pass only the argument itself is put in.
  have once : ∀ arguments : List String, arguments[before]? = some argument
      → substitute arguments (left ++ (placeholder before ++ right))
        = left ++ argument.toList ++ right := by
    intro arguments here
    rw [substitute_append_placeholder unclosed, substitute_placeholder here,
      substitute_plain arguments unopened, List.append_assoc]
  refine ⟨left ++ (placeholder before ++ right), ?_⟩
  have begun := fillFrom_eq_substitute (harmless_blanks before argument)
    (left ++ (placeholder before ++ right))
  rw [once _ (by simp)] at begun
  rw [once _ (by simp), List.append_cons, fillFrom_append, begun]
  intro same
  rcases length_fillFrom_blanks_lt_or (0 + (List.replicate before " " ++ [argument]).length) behind
    (left ++ argument.toList ++ right) with less | ⟨_, absent⟩
  · rw [same] at less
    exact Nat.lt_irrefl _ less
  · rw [List.length_append, List.length_replicate, List.length_singleton] at absent
    exact absent later (by omega) (by omega) occurs

/-- Filling a template does what filling it at once does, provided that no argument can take part
in the placeholder of a later one. If one can, there is a template that shows it, even if all other
arguments are blank.
-/
theorem fill_eq_fillAtOnce (arguments : List String)
    : (Harmless arguments → ∀ template, fill template arguments = fillAtOnce template arguments)
      ∧ (¬Harmless arguments
        → ∃ before argument behind, arguments = before ++ argument :: behind
            ∧ ∃ template,
                let alone := List.replicate before.length " "
                  ++ argument :: List.replicate behind.length " "
                fill template alone ≠ fillAtOnce template alone) := by
  constructor
  · intro harmless template
    rw [fill, fillAtOnce, fillFrom_eq_substitute harmless]
  · intro harmful
    simp only [Harmless, not_forall] at harmful
    obtain ⟨later, inside, argument, member, meets⟩ := harmful
    obtain ⟨before, between, split⟩ := List.append_of_mem member
    have sizes := congrArg List.length split
    simp only [List.length_take, List.length_append, List.length_cons] at sizes
    have whole : arguments = before ++ argument :: (between ++ arguments.drop later) := by
      rw [← List.cons_append, ← List.append_assoc, ← split, List.take_append_drop]
    have total := congrArg List.length whole
    simp only [List.length_append, List.length_cons] at total
    obtain ⟨text, differs⟩ := exists_fillFrom_ne before.length
      (between ++ arguments.drop later).length (by omega) (by rw [List.length_append]; omega) meets
    refine ⟨before, argument, _, whole, String.ofList text, ?_⟩
    intro alone same
    rw [fill, fillAtOnce, String.toList_ofList] at same
    exact differs (String.ofList_injective same)

theorem fill_eq_fillAtOnce_braces
    : Harmless ["';'", "\x7b0\x7d and \x7b1\x7d"]
      ∧ fill "Expected \x7b0\x7d but found \x7b1\x7d." ["';'", "\x7b0\x7d and \x7b1\x7d"]
        = fillAtOnce "Expected \x7b0\x7d but found \x7b1\x7d."
            ["';'", "\x7b0\x7d and \x7b1\x7d"] := by
  have harmless : Harmless ["';'", "\x7b0\x7d and \x7b1\x7d"] :=
    harmless_pair (apart_of_plain (by decide) (by decide) (c := ';') (by decide) (by decide) 1) _
  exact ⟨harmless, (fill_eq_fillAtOnce _).1 harmless _⟩

/-- The text of an argument is taken for a placeholder, alone or between braces of the template. -/
theorem fill_takes_argument_for_placeholder
    : fill "\x7b0\x7d" ["\x7b1\x7d", "x"] = "x"
      ∧ fillAtOnce "\x7b0\x7d" ["\x7b1\x7d", "x"] = "\x7b1\x7d"
      ∧ fill "\x7b\x7b0\x7d\x7d" ["1", "x"] = "x"
      ∧ fillAtOnce "\x7b\x7b0\x7d\x7d" ["1", "x"] = "\x7b1\x7d" := by
  decide +kernel

end LetLang.Text

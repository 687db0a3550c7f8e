import LetLang.Proofs.Token.Order
import Mathlib.Data.Set.Finite.Basic

/-! How tokens are spelled, regardless of their places in the text. A text is a sequence of
pieces, blanks and tokens, and each piece can be taken off its front on its own.
-/

namespace LetLang.Token

/-- A token without its place. -/
def spelling (token : Token) : Kind × String :=
  (token.kind, token.text)

/-- The tokens of a text without their places. -/
def spellings (text : List Char) : List (Kind × String) :=
  (tokenize text).map spelling

/-- A letter, a digit or an underscore. -/
def IsWordChar (c : Char) : Prop :=
  c.isAlpha = true ∨ c.isDigit = true ∨ c = '_'

instance (c : Char) : Decidable (IsWordChar c) :=
  inferInstanceAs (Decidable (_ ∨ _ ∨ _))

/-- A letter, then letters, digits and underscores. -/
def IsWord (text : String) : Prop :=
  ∃ first tail,
    text.toList = first :: tail ∧ first.isAlpha = true ∧ ∀ c ∈ tail, IsWordChar c

/-- A word that is not reserved. -/
structure IsName (text : String) : Prop where
  word : IsWord text
  free : Kind.ofWord? text = none

/-- A word cannot go on with this text: it does not start with a letter, a digit or an
underscore.
-/
def Breaks (text : List Char) : Prop :=
  ∀ c ∈ text.head?, ¬IsWordChar c

-----------------------------------------------------------------------------------------
-- One token at a time
-----------------------------------------------------------------------------------------

/-- What a scan takes off the text does not depend on where the text stands. -/
theorem scan_of_dropWhile_eq_cons {offset : Location} {text rest : List Char} {first : Char}
    (start : text.dropWhile isBlank = first :: rest)
    : (scan offset text).1.spelling
        = ((lexeme first rest).1, String.ofList (lexeme first rest).2)
      ∧ (scan offset text).2 = (first :: rest).drop (lexeme first rest).2.length
      ∧ (scan offset text).1.kind ≠ .endOfFile := by
  unfold scan
  rw [start]
  exact ⟨rfl, rfl, lexeme_kind_ne_endOfFile first rest⟩

theorem map_spelling_scanAll_eq (left right : Location) (text : List Char)
    : (scanAll [] left text).map spelling = (scanAll [] right text).map spelling := by
  cases start : text.dropWhile isBlank with
  | nil =>
      rw [scanAll_of_endOfFile (by simp [scan, start, endOfFile]),
        scanAll_of_endOfFile (by simp [scan, start, endOfFile])]
  | cons first rest =>
      obtain ⟨leftToken, leftRest, leftKind⟩ := @scan_of_dropWhile_eq_cons left _ _ _ start
      obtain ⟨rightToken, rightRest, rightKind⟩ := @scan_of_dropWhile_eq_cons right _ _ _ start
      have shorter := scan_rest_length_lt leftKind
      have later := map_spelling_scanAll_eq (scan left text).1.stop (scan right text).1.stop
        (scan left text).2
      rw [scanAll_of_regular leftKind, scanAll_of_regular rightKind, List.map_cons,
        List.map_cons, leftToken, rightToken, later, leftRest, rightRest]
termination_by text.length

/-- The tokens of a text start with the first one behind the blanks. -/
theorem spellings_eq (text : List Char)
    : spellings text
      = match text.dropWhile isBlank with
        | [] => []
        | first :: rest =>
            ((lexeme first rest).1, String.ofList (lexeme first rest).2)
              :: spellings ((first :: rest).drop (lexeme first rest).2.length) := by
  unfold spellings tokenize
  cases start : text.dropWhile isBlank with
  | nil =>
      rw [scanAll_of_endOfFile (by simp [scan, start, endOfFile])]
      rfl
  | cons first rest =>
      obtain ⟨token, remaining, regular⟩ := @scan_of_dropWhile_eq_cons 0 _ _ _ start
      rw [scanAll_of_regular regular, List.map_cons, token, remaining,
        map_spelling_scanAll_eq _ 0]

theorem spellings_nil : spellings [] = [] :=
  spellings_eq []

theorem spellings_cons_blank {c : Char} (blank : isBlank c = true) (text : List Char)
    : spellings (c :: text) = spellings text := by
  rw [spellings_eq, spellings_eq text, List.dropWhile_cons_of_pos blank]

theorem spellings_append_blank {blanks : List Char} (blank : ∀ c ∈ blanks, isBlank c = true)
    (text : List Char)
    : spellings (blanks ++ text) = spellings text := by
  induction blanks with
  | nil => rfl
  | cons c blanks ih =>
      obtain ⟨first, later⟩ := List.forall_mem_cons.mp blank
      rw [List.cons_append, spellings_cons_blank first, ih later]

theorem spellings_cons {first : Char} (regular : isBlank first = false) (rest : List Char)
    : spellings (first :: rest)
      = ((lexeme first rest).1, String.ofList (lexeme first rest).2)
        :: spellings ((first :: rest).drop (lexeme first rest).2.length) := by
  rw [spellings_eq, List.dropWhile_cons_of_neg (by simp [regular])]

-----------------------------------------------------------------------------------------
-- Pieces of text
-----------------------------------------------------------------------------------------

theorem takeWhile_append_of_breaks {part : Char → Bool} {run rest : List Char}
    (inside : ∀ c ∈ run, part c = true) (outside : ∀ c ∈ rest.head?, part c = false)
    : (run ++ rest).takeWhile part = run := by
  rw [List.takeWhile_append_of_pos inside]
  cases rest with
  | nil => simp
  | cons c rest => simp [outside c (by simp)]

theorem isDigit_eq_false_of_isAlpha {c : Char} (letter : c.isAlpha = true)
    : c.isDigit = false := by
  change (decide ('A'.val ≤ c.val ∧ c.val ≤ 'Z'.val)
    || decide ('a'.val ≤ c.val) && decide (c.val ≤ 'z'.val)) = true at letter
  change (decide ('0'.val ≤ c.val) && decide (c.val ≤ '9'.val)) = false
  simp only [Bool.or_eq_true, Bool.and_eq_true, decide_eq_true_eq, Bool.and_eq_false_iff,
    decide_eq_false_iff_not, UInt32.le_iff_toNat_le, Char.reduceVal, UInt32.reduceToNat]
    at letter ⊢
  omega

/-- What the scanner lets a word go on with. -/
theorem isWordPart_iff {c : Char} : isWordPart c = true ↔ IsWordChar c := by
  simp [isWordPart, Char.isAlphanum, IsWordChar, or_assoc]

theorem isWordPart_eq_false_iff {c : Char} : isWordPart c = false ↔ ¬IsWordChar c := by
  rw [← Bool.not_eq_true, isWordPart_iff]

theorem isWord_of_all {text : String} (first : Char) (tail : List Char)
    (characters : text.toList = first :: tail) (letter : first.isAlpha = true)
    (parts : tail.all isWordPart = true)
    : IsWord text :=
  ⟨first, tail, characters, letter,
    fun c member => isWordPart_iff.mp (List.all_eq_true.mp parts c member)⟩

/-- What the scanner takes as a word is one. -/
theorem isWord_takeWhile {first : Char} (letter : first.isAlpha = true) (rest : List Char)
    : IsWord (String.ofList (first :: rest.takeWhile isWordPart)) :=
  isWord_of_all first (rest.takeWhile isWordPart) String.toList_ofList letter
    (List.all_eq_true.mpr fun _ => List.mem_takeWhile_imp)

theorem IsWordChar.not_blank {c : Char} (part : IsWordChar c) : isBlank c = false := by
  by_contra blank
  simp only [isBlank, Bool.not_eq_false, Bool.or_eq_true, beq_iff_eq] at blank
  rcases blank with ((((rfl | rfl) | rfl) | rfl) | rfl) | rfl <;> exact absurd part (by decide)

theorem isBlank_eq_false_of_isAlpha {c : Char} (letter : c.isAlpha = true) : isBlank c = false :=
  IsWordChar.not_blank (.inl letter)

theorem isBlank_eq_false_of_isDigit {c : Char} (digit : c.isDigit = true) : isBlank c = false :=
  IsWordChar.not_blank (.inr (.inl digit))

theorem Breaks.not_digit {text : List Char} (breaks : Breaks text)
    : ∀ c ∈ text.head?, c.isDigit = false := by
  intro c next
  rw [← Bool.not_eq_true]
  exact fun digit => breaks c next (.inr (.inl digit))

/-- A word is one token. -/
theorem spellings_word {word : String} (isWord : IsWord word) {rest : List Char}
    (breaks : Breaks rest)
    : spellings (word.toList ++ rest)
      = ((Kind.ofWord? word).getD .identifier, word) :: spellings rest := by
  obtain ⟨first, tail, characters, letter, parts⟩ := isWord
  have notBlank := isBlank_eq_false_of_isAlpha letter
  have notDigit := isDigit_eq_false_of_isAlpha letter
  have run := takeWhile_append_of_breaks (fun c member => isWordPart_iff.mpr (parts c member))
    (fun c next => isWordPart_eq_false_iff.mpr (breaks c next))
  have taken : lexeme first (tail ++ rest)
      = ((Kind.ofWord? word).getD .identifier, first :: tail) := by
    simp only [lexeme, notDigit, letter, run, ← characters,
      String.ofList_toList]
    simp [characters]
  rw [characters, List.cons_append, spellings_cons notBlank, taken, ← characters,
    String.ofList_toList]
  simp [characters]

/-- A run of digits is one token. -/
theorem spellings_digits {digits : String} (some : digits.toList ≠ [])
    (all : ∀ c ∈ digits.toList, c.isDigit = true) {rest : List Char} (breaks : Breaks rest)
    : spellings (digits.toList ++ rest) = (.number, digits) :: spellings rest := by
  obtain ⟨first, tail, characters⟩ := List.exists_cons_of_ne_nil some
  rw [characters] at all
  obtain ⟨digit, parts⟩ := List.forall_mem_cons.mp all
  have notBlank := isBlank_eq_false_of_isDigit digit
  have taken : lexeme first (tail ++ rest) = (.number, first :: tail) := by
    simp only [lexeme, digit, if_true, takeWhile_append_of_breaks parts breaks.not_digit]
  rw [characters, List.cons_append, spellings_cons notBlank, taken, ← characters,
    String.ofList_toList]
  simp [characters]

theorem spellings_equals (rest : List Char)
    : spellings ('=' :: rest) = (.equals, "=") :: spellings rest :=
  spellings_cons rfl rest

theorem spellings_semicolon (rest : List Char)
    : spellings (';' :: rest) = (.semicolon, ";") :: spellings rest :=
  spellings_cons rfl rest

theorem spellings_colon (rest : List Char)
    : spellings (':' :: rest) = (.colon, ":") :: spellings rest :=
  spellings_cons rfl rest

-----------------------------------------------------------------------------------------
-- The texts of identifiers
-----------------------------------------------------------------------------------------

theorem ofWord?_ne_identifier (word : String) : Kind.ofWord? word ≠ some .identifier := by
  unfold Kind.ofWord?
  (repeat' split) <;> simp

theorem isName_of_lexeme {first : Char} {rest : List Char}
    (kind : (lexeme first rest).1 = .identifier)
    : IsName (String.ofList (lexeme first rest).2) := by
  unfold lexeme at kind ⊢
  by_cases digit : first.isDigit = true
  · simp [digit] at kind
  by_cases letter : first.isAlpha = true
  · simp only [digit, letter, if_true, if_false, Bool.false_eq_true] at kind ⊢
    refine ⟨isWord_takeWhile letter rest, ?_⟩
    cases reserved : Kind.ofWord? (String.ofList (first :: rest.takeWhile isWordPart)) with
    | none => rfl
    | some other =>
        rw [reserved] at kind
        exact absurd (reserved.trans (congrArg some kind)) (ofWord?_ne_identifier _)
  · simp only [digit, letter, Bool.false_eq_true, if_false] at kind
    (repeat' split at kind) <;> cases kind

theorem isName_of_mem_spellings {text : List Char} {spelled : Kind × String}
    (member : spelled ∈ spellings text) (kind : spelled.1 = .identifier)
    : IsName spelled.2 := by
  rw [spellings_eq] at member
  cases start : text.dropWhile isBlank with
  | nil => simp [start] at member
  | cons first rest =>
      have shorter := (List.dropWhile_sublist isBlank (l := text)).length_le
      have some := List.length_pos_iff.mpr (lexeme_ne_nil first rest)
      rw [start] at member shorter
      have less : ((first :: rest).drop (lexeme first rest).2.length).length < text.length := by
        simp only [List.length_drop, List.length_cons] at shorter ⊢
        omega
      rcases List.mem_cons.mp member with rfl | later
      · exact isName_of_lexeme kind
      · exact isName_of_mem_spellings later kind
termination_by text.length
decreasing_by exact less

/-- Every identifier of a text spells a name. -/
theorem isName_of_mem_tokenize {text : List Char} {token : Token}
    (member : token ∈ tokenize text) (kind : token.kind = .identifier)
    : IsName token.text :=
  isName_of_mem_spellings (List.mem_map_of_mem member) kind

theorem isName_replicate (count : Nat)
    : IsName (String.ofList ('x' :: List.replicate count 'x')) := by
  refine ⟨⟨'x', List.replicate count 'x', String.toList_ofList, rfl, ?_⟩, ?_⟩
  · intro c member
    rw [List.eq_of_mem_replicate member]
    decide
  · -- No reserved word starts like this one.
    have differs : ∀ word : String, word.toList.head? ≠ some 'x'
        → String.ofList ('x' :: List.replicate count 'x') ≠ word := by
      intro word head same
      exact head (by rw [← same, String.toList_ofList]; rfl)
    rw [Kind.ofWord?, if_neg (differs _ (by decide)), if_neg (differs _ (by decide)),
      if_neg (differs _ (by decide)), if_neg (differs _ (by decide)),
      if_neg (not_or.mpr ⟨differs _ (by decide), differs _ (by decide)⟩)]

/-- Finitely many names leave others. -/
theorem exists_isName_not_mem {names : Set String} (finite : names.Finite)
    : ∃ name, IsName name ∧ name ∉ names := by
  have injective
      : Function.Injective fun count => String.ofList ('x' :: List.replicate count 'x') := by
    intro left right same
    simpa using congrArg (fun text => text.toList.length) same
  exact (Set.infinite_of_injective_forall_mem injective isName_replicate).exists_notMem_finite
    finite

end LetLang.Token

import LetLang.Proofs.Text.Utf8
import LetLang.Proofs.Token.Spelling

/-! Tokens tile their text. Between them stand blanks and nothing else, each one takes as many
characters as its class allows, and all of this is true of the bytes of the text as well.
-/

namespace LetLang.Token

open LetLang.Text

/-- The bytes that stand between tokens. -/
def blankBytes : List UInt8 :=
  [0x20, 0x09, 0x0a, 0x0b, 0x0c, 0x0d]

/-- The words that are not names. -/
def reservedWords : List String :=
  ["function", "let", "type", "return", "true", "false"]

/-- What a token between two texts can be: all digits that stand there, a letter with all letters,
digits and underscores behind it, a punctuation mark, or one character of no class.
-/
inductive Munched (before after : List Char) : Kind → String → Prop
  | number {digits : String} (some : digits.toList ≠ [])
    (all : ∀ c ∈ digits.toList, c.isDigit = true)
    (first : ∀ c ∈ before.getLast?, c.isDigit = false)
    (last : ∀ c ∈ after.head?, c.isDigit = false)
    : Munched before after .number digits
  | word {word : String} (isWord : IsWord word) (last : Breaks after)
    : Munched before after ((Kind.ofWord? word).getD .identifier) word
  | equals : Munched before after .equals "="
  | semicolon : Munched before after .semicolon ";"
  | colon : Munched before after .colon ":"
  | unknown {c : Char} (notDigit : c.isDigit = false) (notLetter : c.isAlpha = false)
    (notBlank : isBlank c = false) (notMark : c ∉ ['=', ';', ':'])
    : Munched before after .unknown (String.singleton c)

/-- A text that stands behind `before`, laid out as blanks and tokens. -/
inductive Laid : List Char → List Char → List Token → Prop
  | blanks {before rest} (blank : ∀ c ∈ rest, isBlank c = true) : Laid before rest []
  | token {before blanks after token tokens} (blank : ∀ c ∈ blanks, isBlank c = true)
    (start : token.start = byteLength (before ++ blanks))
    (length : token.span.length = byteLength token.text.toList)
    (munched : Munched (before ++ blanks) after token.kind token.text)
    (later : Laid (before ++ blanks ++ token.text.toList) after tokens)
    : Laid before (blanks ++ (token.text.toList ++ after)) (token :: tokens)

/-- The tokens of a source, by its bytes: where they stand, what stands between them and what
each of them is.
-/
structure Tiles (source : String) (tokens : List Token) : Prop where
  nonempty : ∀ token ∈ tokens, 0 < token.span.length
  ordered
    : tokens.Pairwise fun left right => left.start < right.start ∧ left.stop ≤ right.start
  /-- Positions can be computed without a fault. -/
  places
    : ∀ token ∈ tokens,
        Span.ofBounds token.start token.stop = .ok token.span
        ∧ token.span.stop = .ok token.stop
  /-- No token starts or stops inside a character. -/
  boundaries
    : ∀ token ∈ tokens,
        String.Pos.Raw.IsValid source ⟨token.start⟩ ∧ String.Pos.Raw.IsValid source ⟨token.stop⟩
  spelled
    : ∀ token ∈ tokens,
        ((bytes source.toList).drop token.start).take token.span.length
        = bytes token.text.toList
  between
    : ∀ index byte,
        (bytes source.toList)[index]? = some byte
        → (∀ token ∈ tokens, ¬(token.start ≤ index ∧ index < token.stop))
        → byte ∈ blankBytes
  solid : ∀ token ∈ tokens, ∀ byte ∈ bytes token.text.toList, byte ∉ blankBytes
  joined
    : tokens.flatMap (fun token => token.text.toList)
      = source.toList.filter fun c => !isBlank c
  munched
    : ∀ token ∈ tokens, ∃ before after,
        source.toList = before ++ (token.text.toList ++ after)
        ∧ byteLength before = token.start
        ∧ Munched before after token.kind token.text
  reserved
    : ∀ token ∈ tokens,
        token.kind.isKeyword = true ∨ token.kind = .boolean ↔ token.text ∈ reservedWords

-----------------------------------------------------------------------------------------
-- Blanks as bytes
-----------------------------------------------------------------------------------------

theorem isBlank_iff (c : Char)
    : isBlank c = true ↔ c.val.toNat ∈ [0x20, 0x09, 0x0a, 0x0b, 0x0c, 0x0d] := by
  simp [isBlank, Char.ext_iff, ← UInt32.toNat_inj, or_assoc]

/-- A blank is one byte, and no other character has such a byte. -/
theorem mem_blankBytes_iff {c : Char} {byte : UInt8} (member : byte ∈ String.utf8EncodeChar c)
    : byte ∈ blankBytes ↔ isBlank c = true := by
  rw [isBlank_iff]
  unfold String.utf8EncodeChar at member
  simp only [blankBytes, List.mem_cons, List.not_mem_nil, or_false, ← UInt8.toNat_inj,
    UInt8.reduceToNat] at member ⊢
  (repeat' split at member) <;>
    simp only [List.mem_cons, List.not_mem_nil, or_false, ← UInt8.toNat_inj,
      UInt8.toNat_ofNat'] at member <;>
    omega

theorem mem_blankBytes_of_mem_bytes {text : List Char} (blank : ∀ c ∈ text, isBlank c = true)
    {byte : UInt8} (member : byte ∈ bytes text)
    : byte ∈ blankBytes := by
  obtain ⟨c, among, encoded⟩ := List.mem_flatMap.mp member
  exact (mem_blankBytes_iff encoded).mpr (blank c among)

-----------------------------------------------------------------------------------------
-- One token
-----------------------------------------------------------------------------------------

section

variable {before after : List Char} {kind : Kind} {text : String}

theorem Munched.ne_nil (munched : Munched before after kind text) : text.toList ≠ [] := by
  cases munched with
  | number some => exact some
  | word isWord =>
      obtain ⟨first, tail, characters, _⟩ := isWord
      simp [characters]
  | equals | semicolon | colon | unknown => simp

theorem Munched.not_blank (munched : Munched before after kind text)
    : ∀ c ∈ text.toList, isBlank c = false := by
  cases munched with
  | number _ all =>
      intro c member
      exact isBlank_eq_false_of_isDigit (all c member)
  | word isWord =>
      obtain ⟨first, tail, characters, letter, parts⟩ := isWord
      intro c member
      rw [characters] at member
      rcases List.mem_cons.mp member with rfl | member
      · exact isBlank_eq_false_of_isAlpha letter
      · exact (parts c member).not_blank
  | equals | semicolon | colon => simp [isBlank]
  | unknown _ _ notBlank => simpa using notBlank

/-- No run of digits goes on behind a token. -/
theorem Munched.apart (munched : Munched before after kind text)
    : ∀ last ∈ text.toList.getLast?, ∀ next ∈ after.head?,
        last.isDigit = true → next.isDigit = false := by
  intro last final next follows digit
  cases munched with
  | number _ _ _ ends => exact ends next follows
  | word _ ends => exact ends.not_digit next follows
  | equals | semicolon | colon =>
      simp at final
      subst final
      exact absurd digit (by decide)
  | unknown notDigit =>
      simp at final
      subst final
      rw [notDigit] at digit
      cases digit

/-- A token is a keyword or a boolean exactly when its text is reserved. -/
theorem Munched.reserved_iff (munched : Munched before after kind text)
    : kind.isKeyword = true ∨ kind = .boolean ↔ text ∈ reservedWords := by
  cases munched with
  | number _ all =>
      have absent : text ∉ reservedWords := by
        intro member
        simp only [reservedWords, List.mem_cons, List.not_mem_nil, or_false] at member
        rcases member with rfl | rfl | rfl | rfl | rfl | rfl <;> simp at all
      simp [absent, Kind.isKeyword, Kind.keyword?]
  | word =>
      unfold Kind.ofWord?
      (repeat' split) <;> simp_all [reservedWords, Kind.isKeyword, Kind.keyword?]
  | equals | semicolon | colon => decide
  | @unknown c =>
      have absent : String.singleton c ∉ reservedWords := by
        intro member
        have length : ∀ word ∈ reservedWords, word.toList.length ≠ 1 := by decide
        exact length _ member (by simp)
      simp [absent, Kind.isKeyword, Kind.keyword?]

end

theorem munched_lexeme {before after : List Char} {first : Char} {rest : List Char}
    (whole : first :: rest = (lexeme first rest).2 ++ after) (notBlank : isBlank first = false)
    (apart : ∀ last ∈ before.getLast?, last.isDigit = true → first.isDigit = false)
    : Munched before after (lexeme first rest).1 (String.ofList (lexeme first rest).2) := by
  -- A run takes all that it can: what follows does not belong to it.
  have ends : ∀ {part : Char → Bool}, first :: rest = (first :: rest.takeWhile part) ++ after
      → ∀ c ∈ after.head?, part c = false := by
    intro part split c head
    have tail : rest.dropWhile part = after := by
      rw [List.cons_append] at split
      obtain ⟨_, split⟩ := List.cons.inj split
      exact List.append_cancel_left ((List.takeWhile_append_dropWhile (p := part)).trans split)
    have stops := List.head?_dropWhile_not part rest
    rw [tail, Option.mem_def.mp head] at stops
    exact stops
  unfold lexeme at whole ⊢
  by_cases digit : first.isDigit = true
  · simp only [digit, if_true] at whole ⊢
    refine .number (by simp) ?_ ?_ (ends whole)
    · rw [String.toList_ofList]
      exact List.forall_mem_cons.mpr ⟨digit, fun c => List.mem_takeWhile_imp⟩
    · intro c last
      rw [← Bool.not_eq_true]
      intro before
      rw [apart c last before] at digit
      cases digit
  by_cases letter : first.isAlpha = true
  · simp only [digit, letter, if_true, if_false, Bool.false_eq_true] at whole ⊢
    refine .word (isWord_takeWhile letter rest) ?_
    exact fun c next => isWordPart_eq_false_iff.mp (ends whole c next)
  simp only [digit, letter, if_false, Bool.false_eq_true] at whole ⊢
  split
  · next same =>
      subst same
      exact .equals
  split
  · next same =>
      subst same
      exact .semicolon
  split
  · next same =>
      subst same
      exact .colon
  · next notEquals notSemicolon notColon =>
      refine .unknown ?_ ?_ notBlank ?_
      · simpa using digit
      · simpa using letter
      · simp [notEquals, notSemicolon, notColon]

-----------------------------------------------------------------------------------------
-- All tokens
-----------------------------------------------------------------------------------------

theorem laid_scanAll {before text : List Char}
    (apart
      : ∀ last ∈ before.getLast?, ∀ next ∈ text.head?,
          last.isDigit = true → next.isDigit = false)
    : Laid before text (scanAll [] (byteLength before) text) := by
  by_cases finished : (scan (byteLength before) text).1.kind = .endOfFile
  · rw [scanAll_of_endOfFile finished]
    refine .blanks ?_
    cases remaining : text.dropWhile isBlank with
    | nil => exact List.dropWhile_eq_nil_iff.mp remaining
    | cons first rest => simp [scan, remaining, lexeme_kind_ne_endOfFile] at finished
  · have shorter := scan_rest_length_lt finished
    rw [scanAll_of_regular finished]
    obtain ⟨blanks, first, tail, split, blank, notBlank, whole, same⟩ := scan_split finished
    generalize (scan (byteLength before) text).1 = token at same ⊢
    generalize (scan (byteLength before) text).2 = after at split whole shorter ⊢
    have separated : ∀ last ∈ (before ++ blanks).getLast?,
        last.isDigit = true → first.isDigit = false := by
      intro last final digit
      cases end? : blanks.getLast? with
      | none =>
          obtain rfl := List.getLast?_eq_none_iff.mp end?
          rw [List.append_nil] at final
          refine apart last final first ?_ digit
          rw [split, List.nil_append, ← whole]
          rfl
      | some c =>
          rw [List.getLast?_append, end?] at final
          obtain rfl := Option.some.inj final
          have part := isBlank_eq_false_of_isDigit digit
          rw [blank c (List.mem_of_getLast? end?)] at part
          cases part
    have munched := munched_lexeme whole notBlank separated
    generalize (lexeme first tail).1 = kind, (lexeme first tail).2 = characters at *
    have behind : (before ++ blanks ++ characters).getLast? = characters.getLast? := by
      apply List.getLast?_append_of_ne_nil
      simpa using munched.ne_nil
    have later := @laid_scanAll (before ++ blanks ++ characters) after (by
      rw [behind]
      simpa using munched.apart)
    have stop : token.stop = byteLength (before ++ blanks ++ characters) := by
      rw [same, byteLength_append, byteLength_append]
      rfl
    rw [stop, split]
    subst same
    have laid := @Laid.token before blanks after
      ⟨kind, ⟨byteLength before + byteLength blanks, byteLength characters⟩,
        String.ofList characters⟩ _ blank (byteLength_append before blanks).symm
      (by rw [String.toList_ofList]) munched (by rwa [String.toList_ofList])
    rwa [String.toList_ofList] at laid
termination_by text.length


section

variable {before text : List Char} {tokens : List Token}

theorem stop_eq_byteLength_append {token : Token} (start : token.start = byteLength before)
    (length : token.span.length = byteLength token.text.toList)
    : token.stop = byteLength (before ++ token.text.toList) := by
  rw [byteLength_append, ← start, ← length]
  rfl

/-- Each token stands behind some text, and that text is not shorter than `before`. -/
theorem Laid.exists_split (laid : Laid before text tokens) {token : Token}
    (member : token ∈ tokens)
    : ∃ above below,
        before ++ text = above ++ (token.text.toList ++ below)
        ∧ byteLength before ≤ byteLength above
        ∧ token.start = byteLength above
        ∧ token.span.length = byteLength token.text.toList
        ∧ Munched above below token.kind token.text := by
  induction laid with
  | blanks => cases member
  | @token before blanks after first tokens _ start length munched _ ih =>
      rcases List.mem_cons.mp member with rfl | member
      · exact ⟨before ++ blanks, after, (List.append_assoc ..).symm, by simp, start, length,
          munched⟩
      · obtain ⟨above, below, split, further, rest⟩ := ih member
        refine ⟨above, below, ?_, ?_, rest⟩
        · rw [← split]
          simp only [List.append_assoc]
        · simp only [byteLength_append] at further
          omega

theorem Laid.ordered (laid : Laid before text tokens)
    : tokens.Pairwise fun left right => left.start < right.start ∧ left.stop ≤ right.start := by
  induction laid with
  | blanks => exact .nil
  | @token before blanks after first tokens _ start length munched later ih =>
      refine List.pairwise_cons.mpr ⟨?_, ih⟩
      intro other member
      obtain ⟨above, _, _, further, below, _⟩ := later.exists_split member
      have positive := byteLength_pos munched.ne_nil
      rw [below, stop_eq_byteLength_append start length, start]
      simp only [byteLength_append, Location] at further ⊢
      omega

/-- A byte that belongs to no token is a blank. -/
theorem Laid.mem_blankBytes (laid : Laid before text tokens) {index : Nat} {byte : UInt8}
    (found : (bytes text)[index]? = some byte)
    (outside
      : ∀ token ∈ tokens,
          ¬(token.start ≤ byteLength before + index ∧ byteLength before + index < token.stop))
    : byte ∈ blankBytes := by
  induction laid generalizing index with
  | blanks blank => exact mem_blankBytes_of_mem_bytes blank (List.mem_of_getElem? found)
  | @token before blanks after first tokens blank start length munched _ ih =>
      have away := outside first List.mem_cons_self
      rw [stop_eq_byteLength_append start length, start] at away
      simp only [byteLength_append, Location] at away
      rw [bytes_append, bytes_append] at found
      by_cases early : index < byteLength blanks
      · rw [List.getElem?_append_left (by simpa using early)] at found
        exact mem_blankBytes_of_mem_bytes blank (List.mem_of_getElem? found)
      · -- The byte is not in the token, so it lies behind it.
        have late : byteLength blanks + byteLength first.text.toList ≤ index := by omega
        rw [List.getElem?_append_right (by simpa using early),
          List.getElem?_append_right (by simp; omega), length_bytes, length_bytes] at found
        apply ih found
        intro token member
        have apart := outside token (List.mem_cons_of_mem _ member)
        have same : byteLength (before ++ blanks ++ first.text.toList)
            + (index - byteLength blanks - byteLength first.text.toList)
            = byteLength before + index := by
          simp only [byteLength_append]
          omega
        rwa [same]

/-- The texts of the tokens are the text without its blanks. -/
theorem Laid.joined (laid : Laid before text tokens)
    : tokens.flatMap (fun token => token.text.toList) = text.filter fun c => !isBlank c := by
  induction laid with
  | blanks blank =>
      symm
      simpa using blank
  | @token before blanks after first tokens blank _ _ munched _ ih =>
      have none : blanks.filter (fun c => !isBlank c) = [] := by simpa using blank
      have all : first.text.toList.filter (fun c => !isBlank c) = first.text.toList := by
        simpa using munched.not_blank
      rw [List.flatMap_cons, ih, List.filter_append, List.filter_append, none, all,
        List.nil_append]

end

theorem laid_tokenize (text : List Char) : Laid [] text (tokenize text) :=
  laid_scanAll (by simp)

/-- Each token of a text stands between two parts of it. -/
theorem exists_split_of_mem_tokenize {text : List Char} {token : Token}
    (member : token ∈ tokenize text)
    : ∃ above below,
        text = above ++ (token.text.toList ++ below)
        ∧ token.start = byteLength above
        ∧ token.span.length = byteLength token.text.toList
        ∧ token.stop = byteLength (above ++ token.text.toList)
        ∧ Munched above below token.kind token.text := by
  obtain ⟨above, below, whole, _, start, length, munched⟩ :=
    (laid_tokenize text).exists_split member
  exact ⟨above, below, whole, start, length, stop_eq_byteLength_append start length, munched⟩

/-- The bytes in the span of a token are those of its text. -/
theorem bytes_of_mem_tokenize {text : List Char} {token : Token} (member : token ∈ tokenize text)
    : ((bytes text).drop token.start).take token.span.length = bytes token.text.toList := by
  obtain ⟨above, below, whole, start, length, _⟩ := exists_split_of_mem_tokenize member
  rw [whole, start, length, bytes_append, bytes_append, ← length_bytes above,
    ← length_bytes token.text.toList, List.drop_left, List.take_left]

/-- The tokens of a source tile it. -/
theorem tiles_tokenize {source : String} (fits : byteLength source.toList < Location.bound)
    : Tiles source (tokenize source.toList) := by
  have laid := laid_tokenize source.toList
  refine ⟨?_, laid.ordered, ?_, ?_, ?_, ?_, ?_, laid.joined, ?_, ?_⟩
  · intro token member
    obtain ⟨_, _, _, _, length, _, munched⟩ := exists_split_of_mem_tokenize member
    exact length ▸ byteLength_pos munched.ne_nil
  · intro token member
    obtain ⟨above, below, whole, start, length, stop, _⟩ := exists_split_of_mem_tokenize member
    have inside : token.stop < Location.bound := by
      have size := congrArg byteLength whole
      simp only [byteLength_append, Location] at *
      omega
    have order : token.start ≤ token.stop := Nat.le_add_right ..
    refine ⟨?_, if_pos inside⟩
    rw [Span.ofBounds, if_pos order]
    simp [Token.start, Token.stop]
  · intro token member
    obtain ⟨above, below, whole, start, _, stop, _⟩ := exists_split_of_mem_tokenize member
    rw [start, stop]
    exact ⟨isValid_of_toList_eq_append whole,
      isValid_of_toList_eq_append (whole.trans (List.append_assoc ..).symm)⟩
  · exact fun token member => bytes_of_mem_tokenize member
  · intro index byte found outside
    exact laid.mem_blankBytes found (by simpa using outside)
  · intro token member byte encoded blank
    obtain ⟨_, _, _, _, _, _, munched⟩ := exists_split_of_mem_tokenize member
    obtain ⟨c, among, encoded⟩ := List.mem_flatMap.mp encoded
    have solid := munched.not_blank c among
    rw [(mem_blankBytes_iff encoded).mp blank] at solid
    cases solid
  · intro token member
    obtain ⟨above, below, whole, start, _, _, munched⟩ := exists_split_of_mem_tokenize member
    exact ⟨above, below, whole, start.symm, munched⟩
  · intro token member
    obtain ⟨_, _, _, _, _, _, munched⟩ := exists_split_of_mem_tokenize member
    exact munched.reserved_iff

end LetLang.Token

import LetLang.Proofs.Token.Order
import LetLang.Proofs.Tree.Relocation

/-! The tokens of two texts in a row. No token runs over the end of a text whose last token is a
semicolon, so the tokens are those of the one text and then those of the other, moved behind it.
-/

namespace LetLang.Token

open LetLang.Text

/-- The tokens are none or end with a semicolon. -/
def Closed (tokens : List Token) : Prop :=
  ∀ last ∈ tokens.getLast?, last.kind = .semicolon

instance (tokens : List Token) : Decidable (Closed tokens) :=
  decidable_of_iff (tokens.getLast?.all (·.kind = .semicolon) = true) <| by
    cases last : tokens.getLast? <;> simp [Closed, last]

-----------------------------------------------------------------------------------------
-- Starting further on
-----------------------------------------------------------------------------------------

/-- A scan that starts further on gives the same token further on. -/
theorem scan_add (distance offset : Location) (text : List Char)
    : scan (offset + distance) text
      = ((scan offset text).1.relocate (· + distance), (scan offset text).2) := by
  unfold scan
  rw [Nat.add_right_comm]
  cases text.dropWhile isBlank <;> rfl

theorem scanAll_add (distance offset : Location) (text : List Char)
    : scanAll [] (offset + distance) text
      = (scanAll [] offset text).map (Token.relocate (· + distance)) := by
  have moved := scan_add distance offset text
  by_cases finished : (scan offset text).1.kind = .endOfFile
  · rw [scanAll_of_endOfFile finished, scanAll_of_endOfFile (by rw [moved]; exact finished)]
    rfl
  · have shorter := scan_rest_length_lt finished
    have later := scanAll_add distance (scan offset text).1.stop (scan offset text).2
    have stop : (scan (offset + distance) text).1.stop = (scan offset text).1.stop + distance := by
      rw [moved]
      exact Nat.add_right_comm _ _ _
    rw [scanAll_of_regular finished, scanAll_of_regular (by rw [moved]; exact finished), stop,
      moved, List.map_cons, later]
termination_by text.length

-----------------------------------------------------------------------------------------
-- Going on with another text
-----------------------------------------------------------------------------------------

/-- A semicolon is one character. -/
theorem eq_of_lexeme_semicolon {first : Char} {rest : List Char}
    (kind : (lexeme first rest).1 = .semicolon)
    : first = ';' := by
  unfold lexeme at kind
  split at kind
  · cases kind
  split at kind
  · simp only at kind
    unfold Kind.ofWord? at kind
    (repeat' split at kind) <;> cases kind
  split at kind
  · cases kind
  split at kind
  · assumption
  split at kind <;> cases kind

/-- A token stays as it is when text is added behind it, unless it reaches up to there. -/
theorem lexeme_append {first : Char} {rest : List Char}
    (ends : (lexeme first rest).2 ≠ first :: rest ∨ (lexeme first rest).1 = .semicolon)
    (more : List Char)
    : lexeme first (rest ++ more) = lexeme first rest := by
  rcases ends with ends | kind
  · have run : ∀ {part : Char → Bool}, first :: rest.takeWhile part ≠ first :: rest
        → (rest ++ more).takeWhile part = rest.takeWhile part := by
      intro part stops
      rw [List.takeWhile_append, if_neg]
      intro whole
      exact stops (congrArg _ ((List.takeWhile_prefix part).eq_of_length whole))
    unfold lexeme at ends ⊢
    by_cases digit : first.isDigit = true
    · simp only [digit, if_true] at ends ⊢
      rw [run ends]
    by_cases letter : first.isAlpha = true
    · simp only [digit, letter, if_true, if_false, Bool.false_eq_true] at ends ⊢
      rw [run ends]
    · simp only [digit, letter, if_false, Bool.false_eq_true]
  · rw [eq_of_lexeme_semicolon kind]
    rfl

/-- Behind blanks the scan goes on in the other text. -/
theorem scan_append_of_blank {offset : Location} {blanks : List Char}
    (blank : blanks.dropWhile isBlank = []) (text : List Char)
    : scan offset (blanks ++ text) = scan (offset + byteLength blanks) text := by
  have all := List.dropWhile_eq_nil_iff.mp blank
  unfold scan
  rw [List.takeWhile_append_of_pos all, List.dropWhile_append_of_pos all, byteLength_append,
    Nat.add_assoc]

/-- A token that ends inside a text is read off it alike if more text follows. -/
theorem scan_append_of_regular {offset : Location} {text : List Char}
    (regular : (scan offset text).1.kind ≠ .endOfFile)
    (ends : (scan offset text).2 ≠ [] ∨ (scan offset text).1.kind = .semicolon)
    (more : List Char)
    : scan offset (text ++ more) = ((scan offset text).1, (scan offset text).2 ++ more) := by
  have whole := List.takeWhile_append_dropWhile (p := isBlank) (l := text)
  unfold scan at regular ends ⊢
  cases remaining : text.dropWhile isBlank with
  | nil => simp [remaining, endOfFile] at regular
  | cons first tail =>
      rw [remaining] at ends whole
      have bound := (lexeme_isPrefix first tail).length_le
      have blanks : (text ++ more).takeWhile isBlank = text.takeWhile isBlank := by
        rw [List.takeWhile_append, if_neg]
        intro same
        have length := congrArg List.length whole
        rw [List.length_append, same, List.length_cons] at length
        omega
      have behind : (text ++ more).dropWhile isBlank = first :: (tail ++ more) := by
        rw [List.dropWhile_append, remaining]
        rfl
      have same : lexeme first (tail ++ more) = lexeme first tail := by
        apply lexeme_append
        refine ends.imp_left ?_
        intro left reaches
        simp [reaches] at left
      rw [blanks, behind]
      simp only
      rw [same, ← List.cons_append, List.drop_append_of_le_length bound]

/-- The tokens of two texts in a row, if the first one is closed. -/
theorem scanAll_append {offset : Location} {text : List Char}
    (closed : Closed (scanAll [] offset text)) (more : List Char)
    : scanAll [] offset (text ++ more)
      = scanAll [] offset text ++ scanAll [] (offset + byteLength text) more := by
  by_cases finished : (scan offset text).1.kind = .endOfFile
  · have blank : text.dropWhile isBlank = [] := by
      cases remaining : text.dropWhile isBlank with
      | nil => rfl
      | cons first rest => simp [scan, remaining, lexeme_kind_ne_endOfFile] at finished
    have same := @scan_append_of_blank offset text blank more
    rw [scanAll_of_endOfFile finished, scanAll, scanAll.eq_def _ _ more, same]
    rfl
  · have shorter := scan_rest_length_lt finished
    rw [scanAll_of_regular finished] at closed ⊢
    -- What is left is empty only behind the last token, which is the semicolon.
    have ends : (scan offset text).2 ≠ [] ∨ (scan offset text).1.kind = .semicolon := by
      by_cases last : (scan offset text).2 = []
      · have none : scanAll [] (scan offset text).1.stop (scan offset text).2 = [] := by
          rw [last]
          exact scanAll_of_endOfFile rfl
        exact .inr (closed _ (by simp [none]))
      · exact .inl last
    have later : Closed (scanAll [] (scan offset text).1.stop (scan offset text).2) := by
      intro mark member
      apply closed
      rw [List.getLast?_cons, Option.mem_def.mp member]
      rfl
    have stop : (scan offset text).1.stop + byteLength (scan offset text).2
        = offset + byteLength text := by
      obtain ⟨blanks, first, tail, split, _, _, _, token⟩ := scan_split finished
      have length := congrArg byteLength split
      simp only [byteLength_append] at length
      rw [length, token]
      simp only [Token.stop, Nat.add_assoc]
    have joined := scan_append_of_regular finished ends more
    rw [scanAll_of_regular (by rw [joined]; exact finished), joined]
    simp only
    rw [scanAll_append later, stop, List.cons_append]
termination_by text.length

theorem tokenize_append {text : List Char} (closed : Closed (tokenize text)) (more : List Char)
    : tokenize (text ++ more)
      = tokenize text ++ (tokenize more).map (Token.relocate (· + byteLength text)) := by
  rw [tokenize, scanAll_append closed, scanAll_add]
  rfl

end LetLang.Token

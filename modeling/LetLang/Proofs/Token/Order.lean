import LetLang.Token.Scanner
import Mathlib.Data.List.TakeWhile

/-! Where tokens stand in their text. Each scan takes blanks and then a token off the front of
the text, so tokens come in the order of their positions and none starts at the end.
-/

namespace LetLang.Token

open LetLang.Text

theorem byteLength_pos {text : List Char} (some : text ≠ []) : 0 < byteLength text := by
  cases text with
  | nil => exact absurd rfl some
  | cons first rest =>
      have positive := Char.utf8Size_pos first
      rw [byteLength_cons]
      omega

/-- A token takes its characters off the front of the text. -/
theorem lexeme_isPrefix (first : Char) (rest : List Char)
    : (lexeme first rest).2 <+: first :: rest := by
  unfold lexeme
  split
  · exact (List.prefix_cons_inj first).mpr (List.takeWhile_prefix _)
  split
  · exact (List.prefix_cons_inj first).mpr (List.takeWhile_prefix _)
  split
  · exact ⟨rest, rfl⟩
  split
  · exact ⟨rest, rfl⟩
  split
  · exact ⟨rest, rfl⟩
  · exact ⟨rest, rfl⟩

/-- The text in front of which a scan stands: blanks, the token and what is left. -/
theorem scan_split {offset : Location} {text : List Char}
    (regular : (scan offset text).1.kind ≠ .endOfFile)
    : ∃ blanks first tail,
        text = blanks ++ ((lexeme first tail).2 ++ (scan offset text).2)
        ∧ (∀ c ∈ blanks, isBlank c = true)
        ∧ isBlank first = false
        ∧ (first :: tail) = (lexeme first tail).2 ++ (scan offset text).2
        ∧ (scan offset text).1
          = ⟨(lexeme first tail).1,
              ⟨offset + byteLength blanks, byteLength (lexeme first tail).2⟩,
              String.ofList (lexeme first tail).2⟩ := by
  have whole := List.takeWhile_append_dropWhile (p := isBlank) (l := text)
  unfold scan at regular ⊢
  cases remaining : text.dropWhile isBlank with
  | nil => simp [remaining, endOfFile] at regular
  | cons first tail =>
      have cut := List.prefix_iff_eq_append.mp (lexeme_isPrefix first tail)
      have stops : isBlank first = false := by
        have head := List.head?_dropWhile_not isBlank text
        simpa [remaining] using head
      refine ⟨text.takeWhile isBlank, first, tail, ?_, ?_, stops, cut.symm, rfl⟩
      · simp only
        rw [cut, ← remaining, whole]
      · intro c member
        exact List.mem_takeWhile_imp member

/-- The tokens of a text: the first one, and those of what is left behind it. -/
theorem scanAll_of_regular {offset : Location} {text : List Char}
    (regular : (scan offset text).1.kind ≠ .endOfFile)
    : scanAll [] offset text
      = (scan offset text).1 :: scanAll [] (scan offset text).1.stop (scan offset text).2 := by
  rw [scanAll, if_neg regular, scanAll_eq_append]
  rfl

theorem scanAll_of_endOfFile {offset : Location} {text : List Char}
    (finished : (scan offset text).1.kind = .endOfFile)
    : scanAll [] offset text = [] := by
  rw [scanAll, if_pos finished]
  rfl

/-- Positions grow from token to token, all of them inside the text. -/
theorem scanAll_order (offset : Location) (text : List Char)
    : (scanAll [] offset text).Pairwise (fun left right => left.start < right.start)
      ∧ ∀ token ∈ scanAll [] offset text,
          offset ≤ token.start ∧ token.start < offset + byteLength text := by
  by_cases finished : (scan offset text).1.kind = .endOfFile
  · rw [scanAll_of_endOfFile finished]
    exact ⟨.nil, by simp⟩
  · have shorter := scan_rest_length_lt finished
    obtain ⟨sorted, bounds⟩ := scanAll_order (scan offset text).1.stop (scan offset text).2
    obtain ⟨blanks, first, tail, split, _, _, _, same⟩ := scan_split finished
    have positive := byteLength_pos (lexeme_ne_nil first tail)
    have length := congrArg byteLength split
    simp only [byteLength_append] at length
    have start : (scan offset text).1.start = offset + byteLength blanks := by
      rw [same]
      rfl
    have stop : (scan offset text).1.stop
        = offset + byteLength blanks + byteLength (lexeme first tail).2 := by
      rw [same]
      rfl
    rw [scanAll_of_regular finished]
    refine ⟨List.pairwise_cons.mpr ⟨?_, sorted⟩, ?_⟩
    · intro later member
      have lower := (bounds later member).1
      simp only [Location] at *
      omega
    · intro token member
      rcases List.mem_cons.mp member with rfl | later
      · simp only [Location] at *
        omega
      · have inside := bounds token later
        simp only [Location] at *
        omega
termination_by text.length

theorem tokenize_sorted (text : List Char)
    : (tokenize text).Pairwise fun left right => left.start < right.start :=
  (scanAll_order 0 text).1

theorem start_lt_of_mem_tokenize {text : List Char} {token : Token}
    (member : token ∈ tokenize text)
    : token.start < byteLength text := by
  have inside := (scanAll_order 0 text).2 token member
  simpa using inside.2

/-- A token is as long as its text. -/
theorem span_length_of_mem_scanAll {offset : Location} {text : List Char} {token : Token}
    (member : token ∈ scanAll [] offset text)
    : token.span.length = byteLength token.text.toList := by
  by_cases finished : (scan offset text).1.kind = .endOfFile
  · rw [scanAll_of_endOfFile finished] at member
    cases member
  · have shorter := scan_rest_length_lt finished
    rw [scanAll_of_regular finished] at member
    rcases List.mem_cons.mp member with rfl | later
    · obtain ⟨blanks, first, tail, _, _, _, _, same⟩ := scan_split finished
      rw [same, String.toList_ofList]
    · exact span_length_of_mem_scanAll later
termination_by text.length

end LetLang.Token

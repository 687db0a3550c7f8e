import LetLang.Proofs.Token.Tiling
import Mathlib.Logic.Function.Iterate

/-! A scanner walks over the tokens of its text. Every advance takes it one token further, with
the token before at hand, until it stands at the end of file and stays there.
-/

namespace LetLang.Token

open LetLang.Text

namespace Scanner

/-- Where a scanner has come to that has passed the given tokens: to the token behind them, or
behind the last one to the end of file.
-/
inductive Stands (text : List Char) (passed : List Token) (scanner : Scanner) : Prop
  | within (started : scanner.started = true)
    (regular : scanner.token.kind ≠ .endOfFile)
    (previous : scanner.previous = passed.getLast?)
    (whole
      : tokenize text = passed ++ scanner.token :: scanAll [] scanner.offset scanner.rest)
    (place : scanner.offset + byteLength scanner.rest = byteLength text)
  | behind (started : scanner.started = true)
    (finished : scanner.token = endOfFile (byteLength text))
    (previous : scanner.previous = passed.getLast?)
    (whole : tokenize text = passed)

/-- At the end of file, the blanks that are left have been passed as well. -/
theorem scan_of_endOfFile {offset : Location} {text : List Char}
    (finished : (scan offset text).1.kind = .endOfFile)
    : (scan offset text).1 = endOfFile (offset + byteLength text) := by
  have whole := List.takeWhile_append_dropWhile (p := isBlank) (l := text)
  unfold scan at finished ⊢
  cases remaining : text.dropWhile isBlank with
  | nil =>
      rw [remaining, List.append_nil] at whole
      simp only [whole]
  | cons first rest => simp [remaining, lexeme_kind_ne_endOfFile] at finished

theorem scan_place {offset : Location} {text : List Char}
    (regular : (scan offset text).1.kind ≠ .endOfFile)
    : (scan offset text).1.stop + byteLength (scan offset text).2 = offset + byteLength text := by
  obtain ⟨blanks, first, tail, split, _, _, _, same⟩ := scan_split regular
  have length := congrArg byteLength split
  simp only [byteLength_append] at length
  rw [same, Token.stop]
  simp only [Location] at *
  omega

variable {text : List Char} {passed : List Token} {scanner : Scanner}

/-- An advance reads the next of the tokens that are left, or finds the end of file. -/
theorem stands_advance (running : scanner.isAtEnd = false)
    (previous
      : (if scanner.started then some scanner.token else scanner.previous) = passed.getLast?)
    (whole : tokenize text = passed ++ scanAll [] scanner.offset scanner.rest)
    (place : scanner.offset + byteLength scanner.rest = byteLength text)
    : Stands text passed scanner.advance := by
  have step : scanner.advance
      = { offset := (scan scanner.offset scanner.rest).1.stop,
          rest := (scan scanner.offset scanner.rest).2,
          token := (scan scanner.offset scanner.rest).1,
          previous := if scanner.started then some scanner.token else scanner.previous,
          started := true } := by
    rw [advance, running]
    rfl
  rw [step]
  by_cases finished : (scan scanner.offset scanner.rest).1.kind = .endOfFile
  · refine .behind rfl ?_ previous ?_
    · rw [← place]
      exact scan_of_endOfFile finished
    · rw [whole, scanAll_of_endOfFile finished, List.append_nil]
  · refine .within rfl finished previous ?_ ?_
    · rw [whole, scanAll_of_regular finished]
    · rw [← place]
      exact scan_place finished

theorem stands_advance_ofText (text : List Char) : Stands text [] (ofText text).advance :=
  stands_advance rfl rfl rfl (Nat.zero_add _)

/-- Behind a token, an advance has passed it. -/
theorem Stands.advance_within (stands : Stands text passed scanner)
    (regular : scanner.token.kind ≠ .endOfFile)
    : Stands text (passed ++ [scanner.token]) scanner.advance := by
  cases stands with
  | within started _ _ whole place =>
      apply stands_advance _ _ _ place
      · simp [isAtEnd, regular]
      · simp [started]
      · rw [whole, List.append_assoc, List.singleton_append]
  | behind _ finished => exact absurd (congrArg Token.kind finished) regular

theorem Stands.advance_behind (stands : Stands text passed scanner)
    (finished : scanner.token.kind = .endOfFile)
    : scanner.advance = scanner := by
  cases stands with
  | within _ regular => exact absurd finished regular
  | behind started => simp [advance, isAtEnd, started, finished]

/-- A token that has as many tokens before it as its index says. -/
theorem getElem?_of_eq_take_append {tokens later : List Token} {token : Token} {count : Nat}
    (whole : tokens = tokens.take count ++ token :: later)
    : tokens[count]? = some token := by
  have size := congrArg List.length whole
  simp only [List.length_append, List.length_take, List.length_cons] at size
  have reached : (tokens.take count).length = count := List.length_take_of_le (by omega)
  calc tokens[count]?
      = (tokens.take count ++ token :: later)[count]? := congrArg (·[count]?) whole
    _ = (token :: later)[count - count]? := by
        rw [List.getElem?_append_right (Nat.le_of_eq reached), reached]
    _ = some token := by rw [Nat.sub_self, List.getElem?_cons_zero]

/-- After each advance but the first, one more token has been passed, if there was one. -/
theorem stands_iterate_advance (text : List Char) (count : Nat)
    : Stands text ((tokenize text).take count) (advance^[count + 1] (ofText text)) := by
  induction count with
  | zero => exact stands_advance_ofText text
  | succ count ih =>
      rw [Function.iterate_succ_apply', List.take_add_one]
      generalize advance^[count + 1] (ofText text) = scanner at ih ⊢
      cases id ih with
      | within _ regular _ whole =>
          rw [getElem?_of_eq_take_append whole]
          exact ih.advance_within regular
      | behind _ finished _ whole =>
          have none : (tokenize text)[count]? = none :=
            List.getElem?_eq_none ((List.take_eq_self_iff _).mp whole.symm)
          rw [ih.advance_behind (congrArg Token.kind finished), none]
          simpa using ih

end Scanner

/-- The token before the one with the given index. -/
def before? (tokens : List Token) : Nat → Option Token
  | 0 => none
  | index + 1 => tokens[index]?

theorem getLast?_take_eq_before? {tokens : List Token} {count : Nat}
    (within : count ≤ tokens.length)
    : (tokens.take count).getLast? = before? tokens count := by
  cases count with
  | zero => rfl
  | succ index =>
      rw [List.getLast?_take, if_neg (Nat.succ_ne_zero index), Nat.add_sub_cancel, before?,
        List.getElem?_eq_getElem within]
      rfl

/-- The tokens of a text tile it, and a scanner walks over them: each advance goes to the next
token, and behind the last one the scanner stays at the end of file.
-/
theorem tiles_and_walks_tokenize {source : String}
    (fits : byteLength source.toList < Location.bound)
    : Tiles source (tokenize source.toList)
      ∧ ∀ count,
          let scanner := Scanner.advance^[count + 1] (Scanner.ofText source.toList)
          (∀ token, (tokenize source.toList)[count]? = some token
            → scanner.token = token ∧ scanner.previous = before? (tokenize source.toList) count)
          ∧ ((tokenize source.toList).length ≤ count
            → scanner.token = endOfFile (byteLength source.toList)
              ∧ scanner.previous = (tokenize source.toList).getLast?
              ∧ scanner.advance = scanner) := by
  refine ⟨tiles_tokenize fits, ?_⟩
  intro count scanner
  have stands : Scanner.Stands source.toList _ scanner :=
    Scanner.stands_iterate_advance source.toList count
  refine ⟨?_, ?_⟩
  · intro token found
    have within := (List.getElem?_eq_some_iff.mp found).1
    cases stands with
    | within _ _ previous whole =>
        have same := (Scanner.getElem?_of_eq_take_append whole).symm.trans found
        exact ⟨Option.some.inj same,
          previous.trans (getLast?_take_eq_before? (Nat.le_of_lt within))⟩
    | behind _ _ _ whole =>
        have passed := (List.take_eq_self_iff _).mp whole.symm
        omega
  · intro passed
    rw [List.take_of_length_le passed] at stands
    cases id stands with
    | within _ _ _ whole => simp at whole
    | behind _ finished previous =>
        exact ⟨finished, previous, stands.advance_behind (congrArg Token.kind finished)⟩

theorem tiles_and_walks_tokenize_inner
    : let source := "let é=\t12 ;"
      byteLength source.toList < Location.bound
      ∧ Tiles source (tokenize source.toList)
      ∧ ∀ count,
          let scanner := Scanner.advance^[count + 1] (Scanner.ofText source.toList)
          (∀ token, (tokenize source.toList)[count]? = some token
            → scanner.token = token ∧ scanner.previous = before? (tokenize source.toList) count)
          ∧ ((tokenize source.toList).length ≤ count
            → scanner.token = endOfFile (byteLength source.toList)
              ∧ scanner.previous = (tokenize source.toList).getLast?
              ∧ scanner.advance = scanner) := by
  have fits : byteLength "let é=\t12 ;".toList < Location.bound := by decide
  exact ⟨fits, tiles_and_walks_tokenize fits⟩

end LetLang.Token

import LetLang.Json.Reader
import LetLang.Json.Writer
import LetLang.Proofs.Token.Spelling

/-! Strings and numbers of JSON text. Every string is read back from its written form, whatever
characters it holds. A number is read back as it is written if it follows the grammar of numbers
and what is behind it cannot belong to it.
-/

namespace LetLang.Json

-----------------------------------------------------------------------------------------
-- Strings
-----------------------------------------------------------------------------------------

theorem hexValue?_hexDigit : ∀ value < 16, hexValue? (hexDigit value) = some value := by
  decide

/-- The code unit of a control character. -/
theorem codeUnit?_hexDigits {value : Nat} (small : value < 32)
    : codeUnit? '0' '0' (hexDigit (value / 16)) (hexDigit (value % 16)) = some value := by
  have high := hexValue?_hexDigit (value / 16) (by omega)
  have low := hexValue?_hexDigit (value % 16) (by omega)
  have zero : hexValue? '0' = some 0 := by decide
  simp only [codeUnit?, high, low, zero, Option.bind_eq_bind, Option.bind_some, Option.pure_def,
    Option.some.injEq]
  omega

section Characters

variable {string : PartialString} {rest : List Char}

theorem stringFrom_unit {a b c d : Char} {unit : Nat} (found : codeUnit? a b c d = some unit)
    : stringFrom string ('\\' :: 'u' :: a :: b :: c :: d :: rest)
      = stringFrom (string.pushUnit unit) rest := by
  rw [stringFrom, found]

theorem stringFrom_letter {letter c : Char} (notUnit : letter ≠ 'u')
    (found : unescape? letter = some c)
    : stringFrom string ('\\' :: letter :: rest) = stringFrom (string.push c) rest := by
  rw [stringFrom.eq_4 _ _ _ (by simp [notUnit]), found]

theorem stringFrom_plain {c : Char} (notQuote : c ≠ '"') (notBackslash : c ≠ '\\')
    (notControl : 32 ≤ c.toNat)
    : stringFrom string (c :: rest) = stringFrom (string.push c) rest := by
  rw [stringFrom.eq_def]
  split <;> simp_all

end Characters

/-- A string without broken pairs. -/
def PartialString.whole (done : List Char) : PartialString :=
  ⟨done, none, true⟩

@[simp]
theorem PartialString.push_whole (done : List Char) (c : Char)
    : (whole done).push c = whole (c :: done) := rfl

theorem PartialString.pushUnit_of_lt {done : List Char} {unit : Nat} (small : unit < 32)
    : (whole done).pushUnit unit = whole (Char.ofNat unit :: done) := by
  simp only [pushUnit]
  rw [if_neg (by omega), if_neg (by omega)]
  rfl

/-- The written form of a character is read as the character. -/
theorem stringFrom_escape (done : List Char) (c : Char) (rest : List Char)
    : stringFrom (.whole done) ((escape c).toList ++ rest)
      = stringFrom (.whole (c :: done)) rest := by
  have letter (short : Char) (notUnit : short ≠ 'u') (found : unescape? short = some c)
      : stringFrom (.whole done) ('\\' :: short :: rest) = stringFrom (.whole (c :: done)) rest :=
    stringFrom_letter notUnit found
  unfold escape
  (repeat' split)
  · subst c; exact letter '"' (by decide) rfl
  · subst c; exact letter '\\' (by decide) rfl
  · subst c; exact letter 'b' (by decide) rfl
  · subst c; exact letter 't' (by decide) rfl
  · subst c; exact letter 'n' (by decide) rfl
  · subst c; exact letter 'f' (by decide) rfl
  · subst c; exact letter 'r' (by decide) rfl
  · next small =>
      have unit := @PartialString.pushUnit_of_lt done _ small
      rw [Char.ofNat_toNat] at unit
      rw [← unit, ← stringFrom_unit (codeUnit?_hexDigits small)]
      simp
  · next notQuote notBackslash _ _ _ _ _ notControl =>
      have plain := @stringFrom_plain (.whole done) rest c notQuote notBackslash (by omega)
      simpa [Char.toString] using plain

theorem escapeOnto_eq (out : String) (text : List Char)
    : (escapeOnto out text).toList = out.toList ++ text.flatMap fun c => (escape c).toList := by
  induction text generalizing out with
  | nil => simp [escapeOnto]
  | cons c text ih => simp [escapeOnto, ih]

theorem stringFrom_flatMap_escape (done text rest : List Char)
    : stringFrom (.whole done) ((text.flatMap fun c => (escape c).toList) ++ '"' :: rest)
      = some (some (String.ofList (done.reverse ++ text)), rest) := by
  induction text generalizing done with
  | nil => simp [stringFrom, PartialString.whole, PartialString.finish]
  | cons c text ih =>
      rw [List.flatMap_cons, List.append_assoc, stringFrom_escape, ih]
      simp

/-- The characters of a string literal behind its first quote. -/
def quoted (string : Option String) : List Char :=
  (writeString "" string).toList.tail

theorem toList_writeString (out : String) (string : Option String)
    : (writeString out string).toList = out.toList ++ '"' :: quoted string := by
  cases string with
  | none => simp [writeString, quoted]
  | some text => simp [writeString, quoted, escapeOnto_eq]

/-- A string is read back from its literal. -/
theorem stringFrom_quoted (string : Option String) (rest : List Char)
    : stringFrom .empty (quoted string ++ rest) = some (string, rest) := by
  cases string with
  | none =>
      have unit : codeUnit? 'd' '8' '0' '0' = some 0xD800 := by decide
      have text : quoted none ++ rest = '\\' :: 'u' :: 'd' :: '8' :: '0' :: '0' :: '"' :: rest := by
        simp [quoted, writeString]
      rw [text, stringFrom_unit unit]
      rfl
  | some text =>
      have read := stringFrom_flatMap_escape [] text.toList rest
      change stringFrom (.whole []) (quoted (some text) ++ rest) = some (some text, rest)
      simpa [quoted, writeString, escapeOnto_eq] using read

-----------------------------------------------------------------------------------------
-- Numbers
-----------------------------------------------------------------------------------------

/-- A run of at least one digit. -/
structure IsRun (text : List Char) : Prop where
  some : text ≠ []
  digits : ∀ c ∈ text, c.isDigit = true

/-- Zero, or a run of digits that does not start with a zero. -/
def IsWhole (text : List Char) : Prop :=
  text = ['0'] ∨ IsRun text ∧ text.head? ≠ some '0'

/-- Nothing, or a point and a run of digits. -/
def IsFraction (text : List Char) : Prop :=
  text = [] ∨ ∃ digits, IsRun digits ∧ text = '.' :: digits

/-- Nothing, or the mark of an exponent, a sign and a run of digits. -/
def IsExponent (text : List Char) : Prop :=
  text = []
  ∨ ∃ sign digits, (sign = '+' ∨ sign = '-') ∧ IsRun digits ∧ text = 'e' :: sign :: digits

/-- A number as it is written. -/
def IsLiteral (text : List Char) : Prop :=
  ∃ sign whole fraction exponent,
    (sign = [] ∨ sign = ['-'])
    ∧ IsWhole whole
    ∧ IsFraction fraction
    ∧ IsExponent exponent
    ∧ text = sign ++ whole ++ fraction ++ exponent

/-- A text does not go on with a part of a number. -/
def Ends (rest : List Char) : Prop :=
  ∀ c ∈ rest.head?, c.isDigit = false ∧ c ≠ '.' ∧ isExponentMark c = false

section Numbers

variable {text rest : List Char}

theorem IsWhole.isRun (whole : IsWhole text) : IsRun text := by
  rcases whole with rfl | ⟨run, _⟩
  · exact ⟨by simp, by simp⟩
  · exact run

theorem digits?_append (run : IsRun text) (ends : ∀ c ∈ rest.head?, c.isDigit = false)
    : digits? (text ++ rest) = some (text, rest) := by
  have behind : (text ++ rest).dropWhile Char.isDigit = rest := by
    rw [List.dropWhile_append_of_pos run.digits]
    cases rest with
    | nil => rfl
    | cons c rest => simp [ends c (by simp)]
  unfold digits?
  rw [Token.takeWhile_append_of_breaks run.digits ends, behind]
  cases text with
  | nil => exact absurd rfl run.some
  | cons c text => rfl

theorem whole?_append (whole : IsWhole text) (ends : ∀ c ∈ rest.head?, c.isDigit = false)
    : whole? (text ++ rest) = some (text, rest) := by
  rcases whole with rfl | ⟨run, first⟩
  · rfl
  · rw [← digits?_append run ends]
    unfold whole?
    split
    · next zero =>
        cases text with
        | nil => exact absurd rfl run.some
        | cons c text => simp_all
    · rfl

theorem fraction?_append (fraction : IsFraction text)
    (ends : ∀ c ∈ rest.head?, c.isDigit = false ∧ c ≠ '.')
    : fraction? (text ++ rest) = some (text, rest) := by
  rcases fraction with rfl | ⟨digits, run, rfl⟩
  · rw [List.nil_append]
    unfold fraction?
    split
    · simp at ends
    · rfl
  · rw [List.cons_append, fraction?, digits?_append run fun c member => (ends c member).1]
    rfl

theorem exponent?_append (exponent : IsExponent text) (ends : Ends rest)
    : exponent? (text ++ rest) = some (text, rest) := by
  rcases exponent with rfl | ⟨sign, digits, signed, run, rfl⟩
  · rw [List.nil_append]
    unfold exponent?
    split
    · next mark _ _ => simp [(ends mark (by simp)).2.2]
    · next mark => simp [(ends mark (by simp)).2.2]
    · rfl
  · have mark : isExponentMark 'e' = true := rfl
    rw [List.cons_append, List.cons_append, exponent?, if_pos mark, if_pos signed,
      digits?_append run fun c member => (ends c member).1]
    rfl

section Parts

variable {whole fraction exponent : List Char}

/-- What can follow the whole part of a number is no digit. -/
theorem isDigit_eq_false_of_head? (isFraction : IsFraction fraction)
    (isExponent : IsExponent exponent) (ends : Ends rest)
    : ∀ c ∈ (fraction ++ (exponent ++ rest)).head?, c.isDigit = false := by
  rcases isFraction with rfl | ⟨_, _, rfl⟩
  · rcases isExponent with rfl | ⟨_, _, _, _, rfl⟩
    · exact fun c member => (ends c member).1
    · simp
  · simp

theorem fraction?_append_exponent (isFraction : IsFraction fraction)
    (isExponent : IsExponent exponent) (ends : Ends rest)
    : fraction? (fraction ++ (exponent ++ rest)) = some (fraction, exponent ++ rest) := by
  refine fraction?_append isFraction ?_
  rcases isExponent with rfl | ⟨_, _, _, _, rfl⟩
  · exact fun c member => ⟨(ends c member).1, (ends c member).2.1⟩
  · simp

/-- The parts of a number are determined by its text. -/
theorem parts_unique {whole' fraction' exponent' : List Char} (isWhole : IsWhole whole)
    (isFraction : IsFraction fraction) (isExponent : IsExponent exponent)
    (isWhole' : IsWhole whole') (isFraction' : IsFraction fraction')
    (isExponent' : IsExponent exponent')
    (same : whole ++ (fraction ++ exponent) = whole' ++ (fraction' ++ exponent'))
    : whole = whole' ∧ fraction = fraction' ∧ exponent = exponent' := by
  have ends : Ends [] := by simp [Ends]
  have wholes := whole?_append isWhole (isDigit_eq_false_of_head? isFraction isExponent ends)
  have wholes' := whole?_append isWhole' (isDigit_eq_false_of_head? isFraction' isExponent' ends)
  have fractions := fraction?_append_exponent isFraction isExponent ends
  have fractions' := fraction?_append_exponent isFraction' isExponent' ends
  simp only [List.append_nil] at wholes wholes' fractions fractions'
  rw [same, wholes', Option.some.injEq, Prod.mk.injEq] at wholes
  rw [← wholes.2, fractions', Option.some.injEq, Prod.mk.injEq] at fractions
  exact ⟨wholes.1.symm, fractions.1.symm, fractions.2.symm⟩

end Parts

/-- A number is taken off a text up to where it ends. -/
theorem number?_append (literal : IsLiteral text) (ends : Ends rest)
    : number? (text ++ rest) = some (String.ofList text, rest) := by
  obtain ⟨sign, whole, fraction, exponent, signed, isWhole, isFraction, isExponent, rfl⟩ := literal
  have afterWhole := whole?_append isWhole (isDigit_eq_false_of_head? isFraction isExponent ends)
  have afterFraction := fraction?_append_exponent isFraction isExponent ends
  have afterExponent := exponent?_append isExponent ends
  simp only [List.append_assoc]
  rcases signed with rfl | rfl
  · have first : ∀ c ∈ whole.head?, c ≠ '-' := by
      rintro c member rfl
      exact absurd (isWhole.isRun.digits _ (List.mem_of_mem_head? member)) (by decide)
    unfold number?
    simp only [List.nil_append]
    split
    · next signed =>
        obtain ⟨c, whole, rfl⟩ := List.exists_cons_of_ne_nil isWhole.isRun.some
        simp at first signed
        exact absurd signed.1 first
    · simp [afterWhole, afterFraction, afterExponent]
  · simp [number?, afterWhole, afterFraction, afterExponent]

/-- A number starts with a digit or a sign. -/
theorem IsLiteral.exists_cons (literal : IsLiteral text)
    : ∃ first more, text = first :: more ∧ (first.isDigit = true ∨ first = '-') := by
  obtain ⟨sign, whole, fraction, exponent, signed, isWhole, _, _, rfl⟩ := literal
  rcases signed with rfl | rfl
  · obtain ⟨c, whole, rfl⟩ := List.exists_cons_of_ne_nil isWhole.isRun.some
    exact ⟨c, _, rfl, .inl (isWhole.isRun.digits c List.mem_cons_self)⟩
  · exact ⟨'-', _, rfl, .inr rfl⟩

theorem scalar?_literal (literal : IsLiteral text) (ends : Ends rest)
    : scalar? (text ++ rest) = some (.number (String.ofList text), rest) := by
  have taken := number?_append literal ends
  obtain ⟨first, more, rfl, start⟩ := literal.exists_cons
  have regular (c : Char) (notDigit : c.isDigit = false) (notSign : c ≠ '-') : first ≠ c := by
    rintro rfl
    rcases start with digit | sign
    · simp [digit] at notDigit
    · exact notSign sign
  have notQuote := regular '"' (by decide) (by decide)
  have notNull := regular 'n' (by decide) (by decide)
  have notTrue := regular 't' (by decide) (by decide)
  have notFalse := regular 'f' (by decide) (by decide)
  unfold scalar?
  split <;> simp_all

end Numbers

/-- A numeral without zeros in front is written, also if it is zero. -/
theorem isWhole_toDigits (value : Nat) : IsWhole (Nat.toDigits 10 value) := by
  have run (value : Nat) : IsRun (Nat.toDigits 10 value) :=
    ⟨Nat.toDigits_ne_nil, fun c => Nat.isDigit_of_mem_toDigits (by decide) (by decide)⟩
  induction value using Nat.strongRecOn with
  | ind value ih =>
      by_cases small : value < 10
      · have digits : ∀ digit < 10, digit = 0 ∨ Nat.digitChar digit ≠ '0' := by decide
        rw [Nat.toDigits_of_lt_base small]
        rcases digits value small with rfl | other
        · exact .inl rfl
        · exact .inr ⟨Nat.toDigits_of_lt_base small ▸ run value, by simpa using other⟩
      · have great : 10 ≤ value := Nat.not_lt.mp small
        refine .inr ⟨run value, ?_⟩
        rw [Nat.toDigits_of_base_le (by decide) great, List.head?_append]
        rcases ih (value / 10) (by omega) with zero | ⟨some, first⟩
        · have none := congrArg (Nat.ofDigitChars 10 · 0) zero
          simp only [Nat.ofDigitChars_ten_toDigits] at none
          have : value / 10 = 0 := none
          omega
        · obtain ⟨c, more, same⟩ := List.exists_cons_of_ne_nil some.some
          rw [same] at first ⊢
          simpa using first

theorem toList_numeral (value : Nat) : (toString value).toList = Nat.toDigits 10 value := by
  rw [Nat.toString_eq_repr, Nat.toList_repr]

theorem isLiteral_natural (value : Nat) : IsLiteral (toString value).toList := by
  rw [toList_numeral]
  exact ⟨[], _, [], [], .inl rfl, isWhole_toDigits value, .inl rfl, .inl rfl, by simp⟩

end LetLang.Json

import LetLang.Parse.Error
import LetLang.Proofs.Text.Substitution

/-! The wording of errors. A message of the catalogue, with its arguments put in, says what the
error itself says, and the texts of an error come through unchanged, whatever stands in them.
-/

namespace LetLang

open LetLang.Text

/-- A wording as a sentence of its own: with a capital in front and a full stop at the end. -/
def asSentence (wording : String) : String :=
  match wording.toList with
  | [] => "."
  | first :: rest => String.ofList (first.toUpper :: rest) ++ "."

/-- What the diagnostic of an error says: the wording of the error as a sentence. Where a name was
expected, what was found is a literal, and it is called by its text.
-/
def ParseError.sentence : ParseError → String
  | .unexpectedToken _ .name _ text =>
      "Expected an identifier but found the literal '" ++ text ++ "'."
  | error => asSentence error.message

theorem asSentence_append {lead capital : String} (solid : lead.toList ≠ [])
    (start : asSentence lead = capital ++ ".") (rest : String)
    : asSentence (lead ++ rest) = capital ++ rest ++ "." := by
  obtain ⟨first, others, spelled⟩ := List.exists_cons_of_ne_nil solid
  have same : first.toUpper :: others = capital.toList := by
    have texts := congrArg String.toList start
    simp only [asSentence, spelled, String.toList_append, String.toList_ofList] at texts
    exact List.append_cancel_right texts
  apply String.toList_inj.mp
  simp [asSentence, spelled, ← same]

-----------------------------------------------------------------------------------------
-- Templates
-----------------------------------------------------------------------------------------

namespace Text

theorem fill_one {template : String} (lead tail : String)
    (shape : template.toList = lead.toList ++ (placeholder 0 ++ tail.toList))
    (plain : '\x7b' ∉ lead.toList ∧ '\x7b' ∉ tail.toList) (argument : String)
    : fill template [argument] = lead ++ argument ++ tail := by
  have first : [argument][0]? = some argument := rfl
  apply String.toList_inj.mp
  rw [fill, String.toList_ofList, fillFrom_eq_substitute (harmless_singleton argument), shape,
    substitute_append _ plain.1, substitute_placeholder first, substitute_plain _ plain.2]
  simp

theorem fill_two {template : String} (lead middle tail : String)
    (shape
      : template.toList
        = lead.toList ++ (placeholder 0 ++ (middle.toList ++ (placeholder 1 ++ tail.toList))))
    (plain : '\x7b' ∉ lead.toList ∧ '\x7b' ∉ middle.toList ∧ '\x7b' ∉ tail.toList)
    {argument : String} (apart : Apart (placeholder 1) argument.toList) (other : String)
    : fill template [argument, other] = lead ++ argument ++ middle ++ other ++ tail := by
  have first : [argument, other][0]? = some argument := rfl
  have second : [argument, other][1]? = some other := rfl
  apply String.toList_inj.mp
  rw [fill, String.toList_ofList, fillFrom_eq_substitute (harmless_pair apart other), shape,
    substitute_append _ plain.1, substitute_placeholder first, substitute_append _ plain.2.1,
    substitute_placeholder second, substitute_plain _ plain.2.2]
  simp

end Text

-----------------------------------------------------------------------------------------
-- Errors
-----------------------------------------------------------------------------------------

/-- What a kind of token is called cannot take part in a placeholder. -/
theorem Token.Kind.apart_describe (kind : Kind) (index : Nat)
    : Apart (placeholder index) kind.describe.toList := by
  have plain : '\x7b' ∉ kind.describe.toList ∧ '\x7d' ∉ kind.describe.toList := by
    cases kind <;> decide
  have other : kind.describe.toList.any (fun c => !c.isDigit) = true := by
    cases kind <;> decide
  obtain ⟨c, member, notDigit⟩ := List.any_eq_true.mp other
  exact apart_of_plain plain.1 plain.2 member (by simpa using notDigit) index

namespace ParseError

open Diagnostic

/-- The template of an error with one text says what the error says around that text. -/
theorem fill_eq_asSentence {template : String} (lead capital tail : String)
    (worded
      : (lead.toList ≠ [] ∧ asSentence lead = capital ++ ".")
        ∧ template.toList = capital.toList ++ (placeholder 0 ++ (tail ++ ".").toList)
        ∧ '\x7b' ∉ capital.toList
        ∧ '\x7b' ∉ (tail ++ ".").toList)
    (argument : String)
    : fill template [argument] = asSentence (lead ++ argument ++ tail) := by
  obtain ⟨⟨solid, start⟩, shape, plain⟩ := worded
  have said := asSentence_append solid start
  rw [fill_one capital (tail ++ ".") shape plain]
  simp only [String.append_assoc, said]

theorem message_diagnostic (error : ParseError) : error.diagnostic.message = error.sentence := by
  change fill error.entry.1.template error.entry.2 = error.sentence
  cases error with
  | unexpectedToken span expected found text =>
      cases expected with
      | token kind =>
          change fill Entry.tokenExpected.template [kind.describe, Token.describe found text]
            = asSentence
                ("expected " ++ kind.describe ++ " but found " ++ Token.describe found text)
          have said := @asSentence_append "expected " "Expected " (by decide) (by decide)
          rw [fill_two "Expected " " but found " "." (by decide +kernel) (by decide)
            (kind.apart_describe 1)]
          simp only [String.append_assoc, said]
      | identifierOrLiteral =>
          change fill Entry.atomExpected.template [Token.describe found text] = asSentence _
          have put := fill_eq_asSentence
            ("expected " ++ "an identifier or a literal" ++ " but found ")
            "Expected an identifier or a literal but found " ""
            (show _ ∧ Entry.atomExpected.template.toList = _ ∧ _ by decide +kernel)
            (Token.describe found text)
          rwa [String.append_empty] at put
      | name =>
          change fill Entry.nameExpected.template [text] = _
          exact fill_one "Expected an identifier but found the literal '" "'."
            (by decide +kernel) (by decide +kernel) text
  | invalidNumber span text =>
      change fill Entry.numberOutOfRange.template [text] = asSentence _
      exact fill_eq_asSentence "numeric literal '" "Numeric literal '"
        "' does not fit in a 64-bit float" (by decide +kernel) text
  | redeclared span name =>
      change fill Entry.redeclared.template [name] = asSentence _
      exact fill_eq_asSentence "cannot redeclare symbol '" "Cannot redeclare symbol '" "'"
        (by decide +kernel) name
  | undeclared span name isType =>
      cases isType with
      | false =>
          change fill Entry.undeclared.template [name] = asSentence _
          exact fill_eq_asSentence ("cannot reference " ++ "" ++ "'") "Cannot reference '"
            "' before declaration" (by decide +kernel) name
      | true =>
          change fill Entry.undeclaredType.template [name] = asSentence _
          exact fill_eq_asSentence ("cannot reference " ++ "type " ++ "'") "Cannot reference type '"
            "' before declaration" (by decide +kernel) name

/-- All messages about errors are errors. -/
theorem category_diagnostic (error : ParseError) : error.diagnostic.category = .error := by
  cases error with
  | unexpectedToken _ expected => cases expected <;> rfl
  | invalidNumber | redeclared => rfl
  | undeclared _ _ isType => cases isType <;> rfl

/-- The diagnostic of an error is an error at the same place, and says in a sentence what the error
says. The texts of the error stand in it as they are, also where they look like placeholders.
-/
theorem diagnostic_says_sentence (error : ParseError)
    : error.diagnostic.category = .error
      ∧ error.diagnostic.span = some error.span
      ∧ error.diagnostic.message = error.sentence :=
  ⟨error.category_diagnostic, rfl, error.message_diagnostic⟩

end ParseError

end LetLang

import LetLang.Proofs.Diagnostic.Rendering
import LetLang.Proofs.Parse.Faithfulness

/-! Where the caret of an error stands. An error is about a token or about the end of file. The
first character of a token is shown, and the caret stands under it. At the end of file the caret
stands right behind the shown line, unless the source ends in a carriage return: that one is not
shown, but the caret stands behind it.
-/

namespace LetLang

open LetLang.Text LetLang.Token

namespace Diagnostic

-----------------------------------------------------------------------------------------
-- Offsets of characters
-----------------------------------------------------------------------------------------

section

variable {start : Nat} {before after : List Char}

theorem Anchored.byteLength_le (anchored : Anchored start before after)
    : byteLength before ≤ start := by
  cases anchored with
  | inside reached | unbroken reached => exact reached
  | broken reached | returned reached =>
      rw [byteLength_append] at reached
      exact Nat.le_of_add_right_le reached

/-- An offset in the source is the one of the character behind the caret, or inside of it. -/
theorem Anchored.exists_cons (anchored : Anchored start before after)
    (short : start < byteLength (before ++ after))
    : ∃ first rest, after = first :: rest ∧ start < byteLength before + first.utf8Size := by
  cases anchored with
  | inside _ within => exact ⟨_, _, rfl, within⟩
  | unbroken reached =>
      rw [List.append_nil] at short
      exact absurd reached (Nat.not_le.mpr short)
  | broken reached | returned reached => exact absurd reached (Nat.not_le.mpr short)

/-- The caret of a character stands in front of it. -/
theorem Anchored.after_eq {left right : List Char} {first : Char}
    (anchored : Anchored (byteLength left) before after)
    (whole : before ++ after = left ++ first :: right)
    : after = first :: right := by
  have wide := Char.utf8Size_pos first
  have short : byteLength left < byteLength (before ++ after) := by
    rw [whole, byteLength_append, byteLength_cons]
    omega
  have reached := anchored.byteLength_le
  obtain ⟨next, rest, rfl, within⟩ := anchored.exists_cons short
  rcases List.append_eq_append_iff.mp whole with ⟨middle, rfl, parts⟩ | ⟨middle, rfl, parts⟩
  · cases middle with
    | nil => exact parts
    | cons other others =>
        obtain ⟨rfl, _⟩ := List.cons.inj parts
        rw [byteLength_append, byteLength_cons] at within
        omega
  · cases middle with
    | nil => exact parts.symm
    | cons other others =>
        obtain ⟨rfl, _⟩ := List.cons.inj parts
        rw [byteLength_append, byteLength_cons] at reached
        omega

end

-----------------------------------------------------------------------------------------
-- Carets on the shown line
-----------------------------------------------------------------------------------------

/-- The shown line is short of at most a carriage return. -/
theorem Shown.length_eq {line shown : List Char} (trimmed : Shown line shown)
    : line.length = shown.length + if line.getLast? = some '\r' then 1 else 0 := by
  cases trimmed with
  | whole other => rw [if_neg other, Nat.add_zero]
  | returned => rw [if_pos List.getLast?_concat, List.length_append, List.length_singleton]

/-- The offset of a character that is not blank, or of the end of the source. -/
inductive Placed (source : List Char) : Nat → Prop where
  | solid {left right : List Char} {first : Char} (whole : source = left ++ first :: right)
      (notBlank : isBlank first = false)
      : Placed source (byteLength left)
  | atEnd : Placed source (byteLength source)

namespace Pictured

variable {source : List Char} {start position : Nat} {above lead tail below shown : List Char}

/-- The caret of a character that is not blank stands under it. -/
theorem lead_length_lt {left right : List Char} {first : Char}
    (picture : Pictured source (byteLength left) position above lead tail below shown)
    (whole : source = left ++ first :: right) (solid : isBlank first = false)
    : lead.length < shown.length := by
  have parts : (above ++ lead) ++ (tail ++ below) = left ++ first :: right := by
    rw [← whole, picture.line.whole, List.append_assoc]
  have other : first ≠ '\n' := by
    rintro rfl
    cases solid
  have behind := picture.line.tail_eq
  rw [picture.anchored.after_eq parts, List.takeWhile_cons_of_pos (by simpa using other)] at behind
  have length := picture.shown.length_eq
  rw [behind, List.length_append, List.length_cons] at length
  split at length
  · next returned =>
      -- The carriage return that is not shown stands further on than the character itself.
      have more : right.takeWhile (· ≠ '\n') ≠ [] := by
        intro none
        rw [none, List.getLast?_concat] at returned
        rw [Option.some.inj returned] at solid
        cases solid
      have positive := List.length_pos_iff.mpr more
      omega
  · omega

/-- The caret of the end of file stands right behind the shown line, or behind a carriage return
that ends the source and is not shown.
-/
theorem lead_length_eq
    (picture : Pictured source (byteLength source) position above lead tail below shown)
    : lead.length = shown.length + if source.getLast? = some '\r' then 1 else 0 := by
  have whole : source = (above ++ lead) ++ (tail ++ below) := by
    rw [picture.line.whole, List.append_assoc]
  have anchored := picture.anchored
  have behind := picture.line.tail_eq
  have length := picture.shown.length_eq
  have ends := picture.line.getLast?_eq_some_iff (show '\r' ≠ '\n' by decide)
  -- The offset is the length of the source, so the caret is anchored at one of the three ends.
  rw [whole] at anchored ⊢
  generalize above ++ lead = before, tail ++ below = after at anchored behind ends ⊢
  cases anchored with
  | inside _ within =>
      rw [byteLength_append, byteLength_cons] at within
      omega
  | unbroken =>
      subst behind
      rw [List.takeWhile_nil, List.append_nil] at length
      rw [List.append_nil]
      simp only [ends]
      exact length
  | broken _ other =>
      rw [behind, show ['\n'].takeWhile (· ≠ '\n') = [] from rfl, List.append_nil,
        if_neg (mt ends.mpr other)] at length
      rw [List.getLast?_concat]
      exact length
  | returned =>
      rw [behind, show ['\r', '\n'].takeWhile (· ≠ '\n') = ['\r'] from rfl, List.getLast?_concat]
        at length
      simpa using length

/-- The caret of a token or of the end of file stands at most one place behind the shown line. -/
theorem caret_within (picture : Pictured source start position above lead tail below shown)
    (placed : Placed source start)
    : lead.length ≤ shown.length + 1
      ∧ (lead.length ≤ shown.length
        ↔ ¬(start = byteLength source ∧ source.getLast? = some '\r')) := by
  cases placed with
  | @solid left right first whole notBlank =>
      have under := picture.lead_length_lt whole notBlank
      have before : byteLength left ≠ byteLength source := by
        have wide := Char.utf8Size_pos first
        rw [whole, byteLength_append, byteLength_cons]
        omega
      exact ⟨by omega, fun _ atEnd => before atEnd.1, fun _ => Nat.le_of_lt under⟩
  | atEnd =>
      have behind := picture.lead_length_eq
      split at behind
      · next returned => simp [behind, returned]
      · next other => simp [behind, other]

end Pictured

/-- Every token, and the end of file, starts at such an offset. -/
theorem placed_of_mem {text : List Char} {token : Token}
    (member : token ∈ tokenize text ++ [endOfFile (byteLength text)])
    : Placed text token.start := by
  rcases List.mem_append.mp member with among | last
  · obtain ⟨left, below, whole, start, _, _, munched⟩ := exists_split_of_mem_tokenize among
    obtain ⟨first, others, characters⟩ := List.exists_cons_of_ne_nil munched.ne_nil
    rw [start]
    rw [characters] at whole
    exact .solid whole (munched.not_blank first (by simp [characters]))
  · obtain rfl := List.mem_singleton.mp last
    exact .atEnd

end Diagnostic

namespace Parse

open LetLang.Diagnostic

-----------------------------------------------------------------------------------------
-- Carets of errors
-----------------------------------------------------------------------------------------

theorem Reports.span_diagnose (file : Option String) (error : ParseError)
    : (diagnose file error).span = some error.span := by
  cases file <;> rfl

/-- A parse makes the diagnostics of its errors. -/
theorem exists_error_of_mem_diagnostics {tree : ScopeTree} (wellFormed : tree.WellFormed)
    {scope : Nat} (inside : scope < tree.size) {file : Option String} {source : String}
    {session : Session} (parsed : parseIn tree scope file source = .ok session)
    {diagnostic : Diagnostic} (member : diagnostic ∈ session.diagnostics)
    : ∃ error : ParseError, error.SpelledIn source ∧ diagnostic.span = some error.span := by
  obtain ⟨errors, diagnostics⟩ := (run_of_parseIn wellFormed inside parsed).session_reports
  rw [diagnostics, ← errors] at member
  obtain ⟨error, among, rfl⟩ := List.mem_map.mp member
  exact ⟨error, spelledIn_of_mem_errors wellFormed inside parsed among,
    Reports.span_diagnose file error⟩

/-- The caret of an error stands at most one place behind the shown line, and there exactly for an
error at the end of file, in a source that ends in a carriage return.
-/
theorem parseIn_caret_within {tree : ScopeTree} (wellFormed : tree.WellFormed) {scope : Nat}
    (inside : scope < tree.size) (file : Option String) {source : String}
    (fits : byteLength source.toList + 1 < Location.bound) (color : Bool)
    : ∃ session, parseIn tree scope file source = .ok session
        ∧ ∀ diagnostic ∈ session.diagnostics, ∃ span above lead tail below shown,
            let cut := anchor source.toList span.start
            diagnostic.span = some span
            ∧ Pictured source.toList span.start cut.position above lead tail below shown
            ∧ render (.ofText source) color diagnostic
              = .ok (heading (.of color) diagnostic.file
                    (((bytes source.toList).take cut.position).count newline + 1)
                    (cut.position - byteLength above + 1)
                  ++ drawing shown lead (messageLine (.of color) diagnostic))
            ∧ lead.length ≤ shown.length + 1
            ∧ (lead.length ≤ shown.length
              ↔ ¬(span.start = byteLength source.toList ∧ source.toList.getLast? = some '\r')) := by
  obtain ⟨session, parsed, _⟩ := exists_session wellFormed inside file source
  refine ⟨session, parsed, ?_⟩
  intro diagnostic member
  obtain ⟨error, ⟨_, token, among, place, _⟩, spanned⟩ :=
    exists_error_of_mem_diagnostics wellFormed inside parsed member
  obtain ⟨above, lead, tail, below, shown, picture, drawn⟩ := exists_picture fits spanned color
  refine ⟨error.span, above, lead, tail, below, shown, spanned, picture, drawn, ?_⟩
  have placed : Placed source.toList error.span.start := by
    rw [place]
    exact placed_of_mem among
  exact picture.caret_within placed

theorem parseIn_caret_within_inner
    : let tree := (ScopeTree.new.push ScopeTree.root).1
      let source := "let a = 🙂;\r\n\ttype b = a; let a = 2;\r\n\tlet c = a\r"
      (tree.WellFormed ∧ 1 < tree.size ∧ byteLength source.toList + 1 < Location.bound)
      ∧ ∃ session, parseIn tree 1 (some "first") source = .ok session
        ∧ ∀ diagnostic ∈ session.diagnostics, ∃ span above lead tail below shown,
            let cut := anchor source.toList span.start
            diagnostic.span = some span
            ∧ Pictured source.toList span.start cut.position above lead tail below shown
            ∧ render (.ofText source) true diagnostic
              = .ok (heading .ansi diagnostic.file
                    (((bytes source.toList).take cut.position).count newline + 1)
                    (cut.position - byteLength above + 1)
                  ++ drawing shown lead (messageLine .ansi diagnostic))
            ∧ lead.length ≤ shown.length + 1
            ∧ (lead.length ≤ shown.length
              ↔ ¬(span.start = byteLength source.toList ∧ source.toList.getLast? = some '\r')) :=
  ⟨by decide, parseIn_caret_within (by decide) (by decide) (some "first") (by decide) true⟩

/-- Behind a carriage return at the end of the source, the caret is one place too far. -/
theorem parse_caret_behind_line
    : ∃ session diagnostic,
        parse none "let a = 1\r" = .ok session
        ∧ session.diagnostics = [diagnostic]
        ∧ render (.ofText "let a = 1\r") false diagnostic
          = .ok ("let a = 1" ++ "\n"
              ++ "          " ++ "^ error QL1001: Expected ';' but found end of file.\n")
        ∧ "let a = 1".length < "          ".length := by
  have reported : (parse none "let a = 1\r").toOption.map Session.diagnostics
      = some [⟨none, some ⟨10, 0⟩, "Expected ';' but found end of file.", 1001, .error⟩] := by
    decide +kernel
  obtain ⟨session, parsed, _⟩ := exists_session
    (show ScopeTree.new.WellFormed by decide) (show ScopeTree.root < _ by decide) none "let a = 1\r"
  rw [show parse none "let a = 1\r" = .ok session from parsed] at reported
  refine ⟨session, _, parsed, Option.some.inj reported, ?_, by decide⟩
  rfl

end Parse

end LetLang

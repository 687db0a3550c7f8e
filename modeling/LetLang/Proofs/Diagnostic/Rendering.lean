import LetLang.Diagnostic.Render
import LetLang.Proofs.Text.Lines
import Mathlib.Data.List.TakeWhile

/-! Every diagnostic can be shown. Its place is moved to a character of the source or to its end;
the line found backwards from there is the one that the line map counts, and the caret stands
behind as many places as there are characters of the line before it.
-/

namespace LetLang

open LetLang.Text

namespace Text

-----------------------------------------------------------------------------------------
-- Cuts at an offset
-----------------------------------------------------------------------------------------

theorem cutFrom_fits (budget : Nat) (before text : List Char)
    : (cutFrom budget before text).position ≤ byteLength before + budget
      ∧ ∀ first ∈ (cutFrom budget before text).after.head?,
          byteLength before + budget < (cutFrom budget before text).position + first.utf8Size := by
  induction text generalizing budget before with
  | nil => simp [cutFrom, Cut.position]
  | cons next rest ih =>
      rw [cutFrom]
      split
      · next within =>
          obtain ⟨start, stop⟩ := ih (budget - next.utf8Size) (next :: before)
          have total : byteLength (next :: before) + (budget - next.utf8Size)
              = byteLength before + budget := by
            rw [byteLength_cons]
            omega
          rw [total] at start stop
          exact ⟨start, stop⟩
      · next beyond =>
          simp only [Cut.position, List.head?_cons, Option.mem_some_iff, forall_eq']
          omega

/-- A cut is made at the offset or in front of the character that holds it. -/
theorem cutAt_fits (position : Nat) (text : List Char)
    : (cutAt position text).position ≤ position
      ∧ ∀ first ∈ (cutAt position text).after.head?,
          position < (cutAt position text).position + first.utf8Size := by
  simpa only [byteLength_nil, Nat.zero_add, cutAt] using cutFrom_fits position [] text

/-- The line of a cut is found by looking for the line breaks around it. -/
theorem Cut.onLine (cut : Cut)
    : OnLine cut.text cut.position (cut.before.dropWhile (· ≠ '\n')).reverse
        (cut.before.takeWhile (· ≠ '\n')).reverse (cut.after.takeWhile (· ≠ '\n'))
        (cut.after.dropWhile (· ≠ '\n')) := by
  have joined : (cut.before.dropWhile (· ≠ '\n')).reverse
      ++ (cut.before.takeWhile (· ≠ '\n')).reverse = cut.before.reverse := by
    rw [← List.reverse_append, List.takeWhile_append_dropWhile]
  have ends : ∀ text : List Char, text.dropWhile (· ≠ '\n') = []
      ∨ (text.dropWhile (· ≠ '\n')).head? = some '\n' := by
    intro text
    cases rest : text.dropWhile (· ≠ '\n') with
    | nil => exact .inl rfl
    | cons first others =>
        have stops := List.head?_dropWhile_not (· ≠ '\n') text
        rw [rest] at stops
        exact .inr (by simpa using stops)
  refine ⟨?_, ?_, ?_, ?_, ends cut.after⟩
  · rw [← List.append_assoc, joined, List.takeWhile_append_dropWhile, Cut.text]
  · rw [joined, byteLength_reverse, Cut.position]
  · rw [List.reverse_eq_nil_iff, List.getLast?_reverse]
    exact ends cut.before
  · intro member
    rcases List.mem_append.mp member with before | after
    · simpa using List.mem_takeWhile_imp (List.mem_reverse.mp before)
    · simpa using List.mem_takeWhile_imp after

end Text

namespace Diagnostic

-----------------------------------------------------------------------------------------
-- The place of the caret
-----------------------------------------------------------------------------------------

/-- Between which parts of the source the caret of an offset stands: in front of the character
that holds the offset, or, for an offset behind the source, at its end, but in front of a line
break there.
-/
inductive Anchored (start : Nat) : List Char → List Char → Prop where
  | inside {before rest : List Char} {first : Char} (reached : byteLength before ≤ start)
      (within : start < byteLength before + first.utf8Size)
      : Anchored start before (first :: rest)
  | unbroken {before : List Char} (reached : byteLength before ≤ start)
      (other : before.getLast? ≠ some '\n')
      : Anchored start before []
  | broken {before : List Char} (reached : byteLength (before ++ ['\n']) ≤ start)
      (other : before.getLast? ≠ some '\r')
      : Anchored start before ['\n']
  | returned {before : List Char} (reached : byteLength (before ++ ['\r', '\n']) ≤ start)
      : Anchored start before ['\r', '\n']

theorem anchored_anchor (source : List Char) (start : Location)
    : Anchored start (anchor source start).before.reverse (anchor source start).after := by
  obtain ⟨reached, within⟩ := cutAt_fits start source
  rw [Cut.position, ← byteLength_reverse] at reached within
  unfold anchor
  generalize cutAt start source = cut at reached within ⊢
  obtain ⟨before, after⟩ := cut
  dsimp only at reached within ⊢
  split
  · next rest =>
      exact .returned (by simpa [Cut.retreat] using reached)
  · next rest single =>
      refine .broken (by simpa [Cut.retreat] using reached) ?_
      rw [Cut.retreat, List.getLast?_reverse]
      intro returned
      obtain ⟨others, rfl⟩ := List.head?_eq_some_iff.mp returned
      exact single others rfl
  · next returned broken =>
      cases after with
      | nil =>
          refine .unbroken reached ?_
          rw [List.getLast?_reverse]
          intro last
          obtain ⟨others, rfl⟩ := List.head?_eq_some_iff.mp last
          exact broken others rfl rfl
      | cons first rest => exact .inside reached (within first rfl)

-----------------------------------------------------------------------------------------
-- The picture of an offset
-----------------------------------------------------------------------------------------

/-- What is shown of a line: the whole of it, or all but a carriage return at its end. -/
inductive Shown : List Char → List Char → Prop where
  | whole {line : List Char} (other : line.getLast? ≠ some '\r') : Shown line line
  | returned (line : List Char) : Shown (line ++ ['\r']) line

theorem shown_withoutReturn (line : List Char) : Shown line (withoutReturn line) := by
  rw [withoutReturn]
  split
  · next last =>
      obtain ⟨rest, rfl⟩ := List.getLast?_eq_some_iff.mp last
      rw [List.dropLast_concat]
      exact .returned rest
  · next other => exact .whole other

theorem Shown.exists_append {line shown : List Char} (trimmed : Shown line shown)
    : ∃ rest, line = shown ++ rest := by
  cases trimmed with
  | whole => exact ⟨[], (List.append_nil _).symm⟩
  | returned => exact ⟨['\r'], rfl⟩

/-- The picture of an offset: the place of its caret, the line of the source that this place stands
on and what is shown of the line.
-/
structure Pictured (source : List Char) (start position : Nat)
    (above lead tail below shown : List Char) : Prop where
  anchored : Anchored start (above ++ lead) (tail ++ below)
  line : OnLine source position above lead tail below
  shown : Shown (lead ++ tail) shown

theorem exists_pictured (source : List Char) (start : Location)
    : ∃ above tail below,
        Pictured source start (anchor source start).position above
          (lineBefore (anchor source start)) tail below (shownLine (anchor source start)) := by
  have anchored := anchored_anchor source start
  have whole := anchor_text source start
  generalize anchor source start = cut at anchored whole ⊢
  have line := cut.onLine
  rw [whole] at line
  refine ⟨_, _, _, ?_, line, shown_withoutReturn _⟩
  rwa [lineBefore, ← List.reverse_append, List.takeWhile_append_dropWhile,
    List.takeWhile_append_dropWhile]

/-- A stretch of the source between two boundaries of characters. -/
structure Sliceable (source : String) (start stop : Nat) : Prop where
  order : start ≤ stop
  opening : String.Pos.Raw.IsValid source ⟨start⟩
  closing : String.Pos.Raw.IsValid source ⟨stop⟩

theorem sliceable_of_append {source : String} {before middle after : List Char}
    (whole : source.toList = before ++ (middle ++ after))
    : Sliceable source (byteLength before) (byteLength (before ++ middle)) where
  order := by simp
  opening := isValid_of_toList_eq_append whole
  closing := isValid_of_toList_eq_append (by rw [whole, List.append_assoc])

namespace Pictured

variable {source : String} {start position : Nat} {above lead tail below shown : List Char}

theorem sliceable_lead (picture : Pictured source.toList start position above lead tail below shown)
    : Sliceable source (byteLength above) position := by
  rw [picture.line.place]
  exact sliceable_of_append picture.line.whole

theorem sliceable_shown
    (picture : Pictured source.toList start position above lead tail below shown)
    : Sliceable source (byteLength above) (byteLength (above ++ shown)) := by
  obtain ⟨rest, parts⟩ := picture.shown.exists_append
  apply sliceable_of_append
  rw [picture.line.whole, ← List.append_assoc lead, parts, List.append_assoc]

end Pictured

-----------------------------------------------------------------------------------------
-- Rendering
-----------------------------------------------------------------------------------------

/-- The line that says where a diagnostic with a file applies. -/
def heading (palette : Palette) (file : Option String) (line column : Nat) : String :=
  match file with
  | none => ""
  | some file =>
      palette.cyan ++ file ++ ":" ++ (toString line ++ ":" ++ toString column) ++ palette.reset
        ++ "\n"

/-- A picture as text: the shown line, and below it the caret and a message. Before the caret stands
one character for each one of the line, a tab for a tab and a space for any other.
-/
def drawing (shown lead : List Char) (message : String) : String :=
  String.ofList shown ++ "\n"
    ++ String.ofList (lead.map fun c => if c = '\t' then '\t' else ' ') ++ "^ " ++ message ++ "\n"

section

variable {source : String} {cut : Cut} {start : Nat} {above lead tail below shown : List Char}

/-- The header of a picture counts its line and column from one. Both are bounded by the length of
the source, so they can be counted when all its positions can.
-/
theorem Pictured.header_eq (fits : byteLength source.toList + 1 < Location.bound)
    (picture : Pictured source.toList start cut.position above lead tail below shown)
    (palette : Palette) (file : String)
    : header (.ofText source) palette file cut
      = .ok (heading palette (some file)
          (((bytes source.toList).take cut.position).count newline + 1)
          (cut.position - byteLength above + 1)) := by
  have total := congrArg byteLength picture.line.whole
  simp only [byteLength_append] at total
  have line : ((bytes source.toList).take cut.position).count newline + 1 < Location.bound := by
    have breaks := count_le_byteLength '\n' above
    rw [picture.line.count_eq]
    omega
  have column : cut.position - byteLength above + 1 < Location.bound := by
    rw [picture.line.place, byteLength_append]
    omega
  simp only [header, Context.ofText, picture.line.lineColumn_eq, LineColumn.display_eq line column,
    bind, Except.bind, pure, Except.pure, heading]

/-- What is shown for a diagnostic with a span. -/
theorem Pictured.render_eq {diagnostic : Diagnostic} {span : Span}
    (fits : byteLength source.toList + 1 < Location.bound) (spanned : diagnostic.span = some span)
    (anchored : anchor source.toList span.start = cut)
    (picture : Pictured source.toList start cut.position above (lineBefore cut) tail below
      (shownLine cut))
    (color : Bool)
    : render (.ofText source) color diagnostic
      = .ok (heading (.of color) diagnostic.file
            (((bytes source.toList).take cut.position).count newline + 1)
            (cut.position - byteLength above + 1)
          ++ drawing (shownLine cut) (lineBefore cut) (messageLine (.of color) diagnostic)) := by
  have source_eq : (Context.ofText source).source = source.toList := rfl
  cases named : diagnostic.file with
  | none =>
      simp only [render, spanned, source_eq, anchored, named, heading, drawing, caretIndent,
        String.append_assoc]
      rfl
  | some file =>
      simp only [render, spanned, source_eq, anchored, named, picture.header_eq fits, drawing,
        caretIndent, String.append_assoc]
      rfl

end

/-- A diagnostic without a span is shown as its message. -/
theorem render_of_no_span {diagnostic : Diagnostic} (spanless : diagnostic.span = none)
    (context : Context) (color : Bool)
    : render context color diagnostic = .ok (messageLine (.of color) diagnostic ++ "\n") := by
  simp only [render, spanless]
  rfl

/-- A diagnostic with a span is shown as the picture of the start of its span. -/
theorem exists_picture {source : String} (fits : byteLength source.toList + 1 < Location.bound)
    {diagnostic : Diagnostic} {span : Span} (spanned : diagnostic.span = some span) (color : Bool)
    : let cut := anchor source.toList span.start
      ∃ above lead tail below shown,
        Pictured source.toList span.start cut.position above lead tail below shown
        ∧ render (.ofText source) color diagnostic
          = .ok (heading (.of color) diagnostic.file
                (((bytes source.toList).take cut.position).count newline + 1)
                (cut.position - byteLength above + 1)
              ++ drawing shown lead (messageLine (.of color) diagnostic)) := by
  obtain ⟨above, tail, below, picture⟩ := exists_pictured source.toList span.start
  exact ⟨above, _, tail, below, _, picture, picture.render_eq fits spanned rfl color⟩

/-- A diagnostic can be shown against any source whose positions can all be counted. -/
theorem exists_render {source : String} (fits : byteLength source.toList + 1 < Location.bound)
    (color : Bool) (diagnostic : Diagnostic)
    : ∃ text, render (.ofText source) color diagnostic = .ok text := by
  cases spanned : diagnostic.span with
  | none => exact ⟨_, render_of_no_span spanned _ color⟩
  | some span =>
      obtain ⟨_, _, _, _, _, _, drawn⟩ := exists_picture fits spanned color
      exact ⟨_, drawn⟩

/-- Showing a diagnostic never fails, and what it shows is the picture of its place. The line is
the one that a search backwards from the place finds and also the one that the line map counts.
-/
theorem render_draws_picture {source : String}
    (fits : byteLength source.toList + 1 < Location.bound) (color : Bool) (diagnostic : Diagnostic)
    : match diagnostic.span with
      | none =>
          render (.ofText source) color diagnostic
            = .ok (messageLine (.of color) diagnostic ++ "\n")
      | some span =>
          let cut := anchor source.toList span.start
          let lines := LineMap.ofText source.toList
          ∃ above lead tail below shown,
            Pictured source.toList span.start cut.position above lead tail below shown
            ∧ Sliceable source (byteLength above) cut.position
            ∧ Sliceable source (byteLength above) (byteLength (above ++ shown))
            ∧ byteLength above + byteLength (lineBefore cut) = cut.position
            ∧ 0 < LineMap.search lines.starts cut.position 0 lines.starts.size
            ∧ lines.lineStart (lines.lineOf cut.position) = .ok (byteLength above)
            ∧ render (.ofText source) color diagnostic
              = .ok (heading (.of color) diagnostic.file
                    (((bytes source.toList).take cut.position).count newline + 1)
                    (cut.position - byteLength above + 1)
                  ++ drawing shown lead (messageLine (.of color) diagnostic)) := by
  cases spanned : diagnostic.span with
  | none => exact render_of_no_span spanned _ color
  | some span =>
      obtain ⟨above, tail, below, picture⟩ := exists_pictured source.toList span.start
      refine ⟨above, _, tail, below, _, picture, picture.sliceable_lead, picture.sliceable_shown,
        ?_, ?_, picture.line.lineStart_lineOf, picture.render_eq fits spanned rfl color⟩
      · rw [picture.line.place, byteLength_append]
      · rw [LineMap.search_ofText]
        exact Nat.succ_pos _

/-- An offset behind a source of two lines is shown at the end of the second one. -/
theorem render_draws_picture_behind
    : byteLength "é;\r\n\tλ\r\n".toList + 1 < Location.bound
      ∧ ∃ above lead tail below shown,
          Pictured "é;\r\n\tλ\r\n".toList 99 8 above lead tail below shown
          ∧ render (.ofText "é;\r\n\tλ\r\n") false
              ⟨some "first", some ⟨99, 0⟩, "Too far.", 1001, .error⟩
            = .ok (heading .plain (some "first") 2 (8 - byteLength above + 1)
                ++ drawing shown lead "error QL1001: Too far.") := by
  have fits : byteLength "é;\r\n\tλ\r\n".toList + 1 < Location.bound := by decide
  obtain ⟨above, lead, tail, below, shown, picture, _, _, _, _, _, drawn⟩ :=
    render_draws_picture fits false ⟨some "first", some ⟨99, 0⟩, "Too far.", 1001, .error⟩
  exact ⟨fits, above, lead, tail, below, shown, picture, drawn⟩

example
    : (render (.ofText "é;\r\n\tλ\r\n") false
        ⟨some "first", some ⟨99, 0⟩, "Too far.", 1001, .error⟩).toOption
      = some "first:2:4\n\tλ\n\t ^ error QL1001: Too far.\n" := by
  decide +kernel

end Diagnostic

end LetLang

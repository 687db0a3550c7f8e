import LetLang.Diagnostic.Basic
import LetLang.Text.LineMap

/-! Diagnostics shown with the line of source they apply to and a caret under the place. -/

namespace LetLang.Diagnostic

open LetLang.Text

/-- Codes that switch the colour of a terminal. -/
structure Palette where
  red : String
  yellow : String
  cyan : String
  gray : String
  bold : String
  reset : String
  deriving DecidableEq

/-- The codes for a terminal with colours. -/
def Palette.ansi : Palette :=
  ⟨"\x1b[31m", "\x1b[33m", "\x1b[36m", "\x1b[90m", "\x1b[1m", "\x1b[0m"⟩

/-- No colours. -/
def Palette.plain : Palette :=
  ⟨"", "", "", "", "", ""⟩

/-- The palette for output with or without colours. -/
def Palette.of (color : Bool) : Palette :=
  if color then .ansi else .plain

/-- A source text prepared for showing diagnostics. -/
structure Context where
  source : List Char
  lines : LineMap
  deriving DecidableEq

/-- Prepares a source text. -/
def Context.ofText (source : String) : Context :=
  ⟨source.toList, LineMap.ofText source.toList⟩

/-- Where the source is cut to show an offset: at the offset, or at the end of the source when
it lies behind. The end of a source that ends with a line break is moved before that break.
-/
def anchor (source : List Char) (position : Location) : Cut :=
  let cut := cutAt position source
  match cut.after, cut.before with
  | [], '\n' :: '\r' :: _ => cut.retreat.retreat
  | [], '\n' :: _ => cut.retreat
  | _, _ => cut

/-- The source is cut without loss. -/
theorem anchor_text (source : List Char) (position : Location)
    : (anchor source position).text = source := by
  simp only [anchor]
  split <;> simp [cutAt_text]

/-- The part of the cut line that stands before the cut. -/
def lineBefore (cut : Cut) : List Char :=
  (cut.before.takeWhile (· ≠ '\n')).reverse

/-- The line of a cut, up to the line break. -/
def cutLine (cut : Cut) : List Char :=
  lineBefore cut ++ cut.after.takeWhile (· ≠ '\n')

/-- A line without one carriage return at its end. -/
def withoutReturn (line : List Char) : List Char :=
  if line.getLast? = some '\r' then line.dropLast else line

/-- The line shown above the caret. -/
def shownLine (cut : Cut) : List Char :=
  withoutReturn (cutLine cut)

/-- What stands before the caret: a blank for each character before the cut. Tabs are kept, so
that the caret stands under its place.
-/
def caretIndent (cut : Cut) : List Char :=
  (lineBefore cut).map fun c => if c = '\t' then '\t' else ' '

/-- The message of a diagnostic, coloured. -/
def messageLine (palette : Palette) (diagnostic : Diagnostic) : String :=
  palette.bold ++ (if diagnostic.isError then palette.red else palette.yellow)
    ++ diagnostic.category.describe ++ palette.reset ++ " "
    ++ palette.cyan ++ diagnostic.label ++ palette.reset ++ ": " ++ diagnostic.message

/-- The file, line and column of a diagnostic at a cut of the source. -/
def header (context : Context) (palette : Palette) (file : String) (cut : Cut)
    : Except Fault String :=
  return palette.cyan ++ file ++ ":" ++ (← (← context.lines.lineColumn cut.position).display)
    ++ palette.reset ++ "\n"

/-- Shows a diagnostic against its source. One without a span is only its message. -/
def render (context : Context) (color : Bool) (diagnostic : Diagnostic)
    : Except Fault String := do
  let palette := Palette.of color
  match diagnostic.span with
  | none => return messageLine palette diagnostic ++ "\n"
  | some span =>
      let cut := anchor context.source span.start
      let place ←
        match diagnostic.file with
        | none => pure ""
        | some file => header context palette file cut
      return place ++ String.ofList (shownLine cut) ++ "\n" ++ String.ofList (caretIndent cut)
        ++ "^ " ++ messageLine palette diagnostic ++ "\n"

end LetLang.Diagnostic

import LetLang.Diagnostic.Basic

/-! Lists of diagnostics, and their order by file and position. -/

namespace LetLang.Diagnostic

/-- How many of the diagnostics are errors. -/
def errorCount (diagnostics : List Diagnostic) : Nat :=
  diagnostics.countP isError

/-- Whether one of the diagnostics is an error. -/
def hasErrors (diagnostics : List Diagnostic) : Bool :=
  diagnostics.any isError

/-- The offset that a diagnostic is sorted by. -/
def position (diagnostic : Diagnostic) : Location :=
  match diagnostic.span with
  | some span => span.start
  | none => 0

/-- Whether `left` may stand before `right`. Diagnostics without a file come first, then those
of each file in the order of the file names, and those of one file by their position.
-/
def comesBefore (left right : Diagnostic) : Bool :=
  match left.file, right.file with
  | none, none => decide (left.position ≤ right.position)
  | none, some _ => true
  | some _, none => false
  | some leftFile, some rightFile =>
      if leftFile = rightFile then
        decide (left.position ≤ right.position)
      else
        decide (leftFile < rightFile)

/-- The diagnostics in order. Those with the same file and position keep their order. -/
def sort (diagnostics : List Diagnostic) : List Diagnostic :=
  diagnostics.mergeSort comesBefore

end LetLang.Diagnostic

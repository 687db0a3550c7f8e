/-! Message templates. A template holds placeholders, each an argument's index in braces. The
arguments are put in one after the other, so the text of an argument is searched for the
placeholders of the later ones.
-/

namespace LetLang.Text

/-- Replaces every occurrence of `pattern` in `text`, from left to right and without overlap.
`done` holds the finished part, last character first.
-/
def replaceFrom (pattern replacement done text : List Char) : List Char :=
  match text with
  | [] => done.reverse
  | first :: rest =>
      if pattern.isPrefixOf (first :: rest) then
        replaceFrom pattern replacement (replacement.reverse ++ done)
          (rest.drop (pattern.length - 1))
      else
        replaceFrom pattern replacement (first :: done) rest
termination_by text.length
decreasing_by
  · simp only [List.length_drop, List.length_cons]; omega
  · simp

theorem replaceFrom_eq_append (pattern replacement done text : List Char)
    : replaceFrom pattern replacement done text
      = done.reverse ++ replaceFrom pattern replacement [] text := by
  match text with
  | [] => simp [replaceFrom]
  | first :: rest =>
      rw [replaceFrom, replaceFrom]
      split
      · rw [replaceFrom_eq_append, replaceFrom_eq_append _ _ (replacement.reverse ++ [])]
        simp
      · rw [replaceFrom_eq_append, replaceFrom_eq_append _ _ [first]]
        simp
termination_by text.length
decreasing_by
  all_goals simp only [List.length_drop, List.length_cons]; omega

/-- Replaces every occurrence of `pattern` in `text`. -/
def replaceAll (pattern replacement text : List Char) : List Char :=
  replaceFrom pattern replacement [] text

/-- The placeholder of the argument with the given index. -/
def placeholder (index : Nat) : List Char :=
  '\x7b' :: Nat.toDigits 10 index ++ ['\x7d']

/-- Puts the arguments, the first of which has the given index, in place of their
placeholders.
-/
def fillFrom (index : Nat) (text : List Char) : List String → List Char
  | [] => text
  | argument :: rest =>
      fillFrom (index + 1) (replaceAll (placeholder index) argument.toList text) rest

/-- Puts the arguments in place of their placeholders. -/
def fill (template : String) (arguments : List String) : String :=
  String.ofList (fillFrom 0 template.toList arguments)

end LetLang.Text

import LetLang.Parse.Cursor
import LetLang.Text.Bytes
import LetLang.Tree.Expr

/-! Parsing of atoms, names and expressions. Which names are visible is known beforehand: it
does not change inside an expression.
-/

namespace LetLang.Parse

open LetLang.Parse.Parser

/-- Tells whether a name is visible. -/
abbrev Visibility := String → Except Fault Bool

/-- The number that a run of digits stands for. -/
def numberOf (digits : String) : Binary64 :=
  Binary64.ofNat (Nat.ofDigitChars 10 digits.toList 0)

/-- A name, a number or a boolean. -/
def atom : Parser Atom := do
  let token ← current
  match token.kind with
  | .identifier => do
      skip
      return .identifier ⟨token.start, token.text⟩
  | .number => do
      skip
      if (numberOf token.text).isFinite then
        return .number token.start (numberOf token.text)
      else
        fail (.invalidNumber token.span token.text)
  | .boolean => do
      skip
      return .boolean token.start (token.text == "true")
  | _ => unexpected .identifierOrLiteral

/-- A name. A literal in its place is read before it is refused. -/
def name : Parser Identifier := do
  let token ← current
  match ← atom with
  | .identifier found => return found
  | _ => fail (.unexpectedToken token.span .name token.kind token.text)

/-- The span of a name. -/
def nameSpan (name : Identifier) : Span :=
  ⟨name.location, Text.byteLength name.text.toList⟩

/-- Refuses a name that is not visible. -/
def checkVisible (visible : Visibility) (name : Identifier) (isType : Bool) : Parser Unit := do
  if ← ask (visible name.text) then
    return ()
  else
    fail (.undeclared (nameSpan name) name.text isType)

/-- Refuses a name that is visible. -/
def checkFree (visible : Visibility) (name : Identifier) : Parser Unit := do
  if ← ask (visible name.text) then
    fail (.redeclared (nameSpan name) name.text)
  else
    return ()

theorem forward_atom : Forward atom := by
  refine forward_current.bind fun token => ?_
  split
  · exact forward_skip.bind fun _ => .pure _
  · refine forward_skip.bind fun _ => ?_
    split
    · exact .pure _
    · exact forward_fail _
  · exact forward_skip.bind fun _ => .pure _
  · exact forward_unexpected _

theorem forward_name : Forward name := by
  refine forward_current.bind fun token => forward_atom.bind fun found => ?_
  split
  · exact .pure _
  · exact forward_fail _

theorem forward_checkVisible (visible : Visibility) (name : Identifier) (isType : Bool)
    : Forward (checkVisible visible name isType) := by
  refine (forward_ask _).bind fun found => ?_
  split
  · exact .pure _
  · exact forward_fail _

theorem forward_checkFree (visible : Visibility) (name : Identifier)
    : Forward (checkFree visible name) := by
  refine (forward_ask _).bind fun found => ?_
  split
  · exact forward_fail _
  · exact .pure _

/-- What an atom comes to, by the kind of the current token. -/
theorem atom_apply (cursor : Cursor)
    : atom cursor =
      match cursor.current.kind with
      | .identifier =>
          .done (.identifier ⟨cursor.current.start, cursor.current.text⟩) cursor.advance
      | .number =>
          if (numberOf cursor.current.text).isFinite then
            .done (.number cursor.current.start (numberOf cursor.current.text)) cursor.advance
          else
            fail (.invalidNumber cursor.current.span cursor.current.text) cursor.advance
      | .boolean =>
          .done (.boolean cursor.current.start (cursor.current.text == "true")) cursor.advance
      | kind =>
          fail (.unexpectedToken cursor.current.span .identifierOrLiteral kind
            cursor.current.text) cursor := by
  simp only [atom, bind_apply, current]
  cases hk : cursor.current.kind <;>
    simp only [bind_apply, skip, pure_apply, unexpected, current, hk]
  split <;> rfl

/-- An atom is taken off the tokens to come. -/
theorem rest_length_lt_of_atom {cursor next : Cursor} {found : Atom}
    (h : atom cursor = .done found next)
    : next.rest.length < cursor.rest.length := by
  rw [atom_apply] at h
  rcases cursor with ⟨previous, _ | ⟨token, rest⟩, stop, reports⟩
  · cases h
  · suffices hn : next = Cursor.advance ⟨previous, token :: rest, stop, reports⟩ by
      simp [hn, Cursor.advance]
    split at h
    · cases h; rfl
    · split at h <;> cases h
      rfl
    · cases h; rfl
    · cases h

/-- The rest of an expression behind the targets of assignments, the last of which comes first.
A name is a target if an equals sign follows it.
-/
def expressionFrom (visible : Visibility) (targets : List Link) (cursor : Cursor) : Step Expr :=
  match _h : atom cursor with
  | .done (.identifier found) next =>
      match visible found.text with
      | .ok true =>
          if next.current.kind = .equals then
            expressionFrom visible (⟨found.location, found⟩ :: targets) next.advance
          else
            .done (Expr.wrap (.atom (.identifier found)) targets) next
      | .ok false => fail (.undeclared (nameSpan found) found.text false) next
      | .error fault => .faulted fault
  | .done leaf next => .done (Expr.wrap (.atom leaf) targets) next
  | .failed error stopped => .failed error stopped
  | .faulted fault => .faulted fault
termination_by cursor.rest.length
decreasing_by
  have := rest_length_lt_of_atom _h
  simp only [Cursor.advance_rest, List.length_tail]
  omega

/-- An expression. -/
def expression (visible : Visibility) : Parser Expr := fun cursor =>
  expressionFrom visible [] cursor

theorem forward_expression (visible : Visibility) : Forward (expression visible) := by
  suffices hs : ∀ targets cursor reached,
      (expressionFrom visible targets cursor).cursor? = some reached
        → reached.rest <:+ cursor.rest from hs []
  intro targets cursor
  fun_induction expressionFrom visible targets cursor with
  | case1 targets cursor found next h _ _ ih =>
      intro reached hr
      have ha := forward_atom cursor next (by rw [h]; rfl)
      have hn := Cursor.advance_rest next ▸ ih reached hr
      exact (hn.trans (List.tail_suffix _)).trans ha
  | case2 _ cursor _ next h | case3 _ cursor _ next h | case5 _ cursor _ next _ h
  | case6 _ cursor _ next h =>
      intro reached hr
      cases hr
      exact forward_atom cursor next (by rw [h]; rfl)
  | case4 | case7 => intro reached hr; cases hr

end LetLang.Parse

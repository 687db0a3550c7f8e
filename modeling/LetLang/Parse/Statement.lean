import LetLang.Parse.Expression
import LetLang.Tree.Module

/-! Parsing of statements. A statement is checked against the names visible before it; what it
declares is known once its last part has been read, even if its semicolon is missing.
-/

namespace LetLang.Parse

open LetLang.Parse.Parser

/-- The type name of a binding, behind a colon. -/
def ascription (visible : Visibility) : Parser (Option Identifier) := do
  if ← accept .colon then
    let typeName ← name
    checkVisible visible typeName true
    return some typeName
  else
    return none

/-- A binding that starts at the given location: `let`, a name, perhaps its type, and its
initializer.
-/
def binding (visible : Visibility) (location : Location) : Parser Declaration := do
  skip
  let declared ← name
  checkFree visible declared
  let annotated ← ascription visible
  expect .equals
  let initializer ← expression visible
  return .binding location declared annotated initializer

/-- A type alias that starts at the given location: `type`, a name, and the name it stands
for. That name need not be visible.
-/
def typeAlias (visible : Visibility) (location : Location) : Parser Declaration := do
  skip
  let declared ← name
  checkFree visible declared
  expect .equals
  let aliased ← name
  return .typeAlias location declared aliased

/-- A statement without its semicolon. -/
def statementBody (visible : Visibility) : Parser Statement := do
  let token ← current
  match token.kind with
  | .letKeyword => return .declaration (← binding visible token.start)
  | .typeKeyword => return .declaration (← typeAlias visible token.start)
  | _ => return .expression token.start (← expression visible)

theorem forward_ascription (visible : Visibility) : Forward (ascription visible) := by
  refine (forward_accept _).bind fun found => ?_
  split
  · exact forward_name.bind fun _ => (forward_checkVisible _ _ _).bind fun _ => .pure _
  · exact .pure _

theorem forward_binding (visible : Visibility) (location : Location)
    : Forward (binding visible location) :=
  forward_skip.bind fun _ => forward_name.bind fun _ => (forward_checkFree _ _).bind fun _ =>
    (forward_ascription _).bind fun _ => (forward_expect _).bind fun _ =>
      (forward_expression _).bind fun _ => .pure _

theorem forward_typeAlias (visible : Visibility) (location : Location)
    : Forward (typeAlias visible location) :=
  forward_skip.bind fun _ => forward_name.bind fun _ => (forward_checkFree _ _).bind fun _ =>
    (forward_expect _).bind fun _ => forward_name.bind fun _ => .pure _

theorem forward_statementBody (visible : Visibility) : Forward (statementBody visible) := by
  refine forward_current.bind fun token => ?_
  split
  · exact (forward_binding _ _).bind fun _ => .pure _
  · exact (forward_typeAlias _ _).bind fun _ => .pure _
  · exact (forward_expression _).bind fun _ => .pure _

/-- What an attempt at a statement came to: the statement or the error that ended it, the
declaration it made in either case, and where it stopped.
-/
structure Outcome where
  result : Except ParseError Statement
  declared : Option Declaration
  stopped : Cursor

/-- Attempts a statement with its semicolon. -/
def statement (visible : Visibility) (cursor : Cursor) : Except Fault Outcome :=
  match statementBody visible cursor with
  | .faulted fault => .error fault
  | .failed error stopped => .ok ⟨.error error, none, stopped⟩
  | .done found reached =>
      match expect .semicolon reached with
      | .faulted fault => .error fault
      | .failed error stopped => .ok ⟨.error error, found.declaration?, stopped⟩
      | .done _ next => .ok ⟨.ok found, found.declaration?, next⟩

/-- What a token of an expected kind comes to. -/
theorem expect_apply (kind : Token.Kind) (cursor : Cursor)
    : expect kind cursor =
      if cursor.current.kind = kind then
        .done () cursor.advance
      else
        fail (.unexpectedToken cursor.current.span (.token kind) cursor.current.kind
          cursor.current.text) cursor := by
  simp only [expect, bind_apply, current]
  split <;> rfl

theorem rest_length_lt_of_expect {kind : Token.Kind} {cursor next : Cursor}
    (hk : kind ≠ .endOfFile) (h : expect kind cursor = .done () next)
    : next.rest.length < cursor.rest.length := by
  rw [expect_apply] at h
  split at h
  · next hc =>
      cases h
      rcases cursor with ⟨previous, _ | ⟨token, rest⟩, stop, reports⟩
      · exact absurd hc.symm hk
      · simp [Cursor.advance]
  · cases h

/-- An attempt stops at an end of the tokens to come, and behind the first of them if it
succeeds.
-/
theorem statement_stopped {visible : Visibility} {cursor : Cursor} {outcome : Outcome}
    (h : statement visible cursor = .ok outcome)
    : outcome.stopped.rest <:+ cursor.rest
      ∧ (∀ found, outcome.result = .ok found
          → outcome.stopped.rest.length < cursor.rest.length) := by
  unfold statement at h
  have hb := forward_statementBody visible cursor
  split at h
  · cases h
  · next error stopped hs =>
      cases h
      exact ⟨hb _ (by rw [hs]; rfl), by simp⟩
  · next found reached hs =>
      have hr := hb reached (by rw [hs]; rfl)
      split at h
      · cases h
      · next he =>
          cases h
          exact ⟨(forward_expect _ _ _ (by rw [he]; rfl)).trans hr, by simp⟩
      · next he =>
          cases h
          refine ⟨(forward_expect _ _ _ (by rw [he]; rfl)).trans hr, fun _ _ => ?_⟩
          exact Nat.lt_of_lt_of_le (rest_length_lt_of_expect (by simp) he) hr.length_le

end LetLang.Parse

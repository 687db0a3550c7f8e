import LetLang.Parse.Reports

/-! Parsers over a list of tokens. A parser starts at a cursor and gives a value and the cursor
behind what it read, or an error, which it has reported, and the cursor at which it stopped, or
a fault. No parser moves its cursor back.
-/

namespace LetLang

/-- A place between two tokens: the token before it and the tokens to come, with what has been
reported on the way there.
-/
structure Cursor where
  previous : Option Token
  rest : List Token
  /-- Where the source ends. -/
  stop : Location
  reports : Parse.Reports
  deriving DecidableEq

namespace Cursor

/-- The cursor before the first of the given tokens. -/
def ofTokens (file : Option String) (tokens : List Token) (stop : Location) : Cursor :=
  ⟨none, tokens, stop, .empty file⟩

/-- The token right behind the cursor. -/
def current (cursor : Cursor) : Token :=
  match cursor.rest with
  | [] => Token.endOfFile cursor.stop
  | token :: _ => token

/-- Moves over the current token, if it is not the end of file. -/
def advance (cursor : Cursor) : Cursor :=
  match cursor.rest with
  | [] => cursor
  | token :: rest => { cursor with previous := some token, rest }

/-- Reports an error. -/
def report (cursor : Cursor) (error : ParseError) : Cursor :=
  { cursor with reports := cursor.reports.add error }

/-- The cursor as the next attempt at a statement finds it. -/
def lower (cursor : Cursor) : Cursor :=
  { cursor with reports := cursor.reports.lower }

@[simp]
theorem report_rest (cursor : Cursor) (error : ParseError)
    : (cursor.report error).rest = cursor.rest := rfl

@[simp]
theorem lower_rest (cursor : Cursor) : cursor.lower.rest = cursor.rest := rfl

theorem advance_rest (cursor : Cursor) : cursor.advance.rest = cursor.rest.tail := by
  rcases cursor with ⟨previous, _ | ⟨token, rest⟩, stop, reports⟩ <;> rfl

theorem current_of_rest_eq {left right : Cursor} (h : left.rest = right.rest)
    (hne : right.rest ≠ [])
    : left.current = right.current := by
  unfold current
  rw [h]
  cases hr : right.rest with
  | nil => exact absurd hr hne
  | cons token rest => rfl

end Cursor

namespace Parse

/-- What comes of a parser at a cursor. -/
inductive Step (α : Type) where
  | done (value : α) (next : Cursor)
  | failed (error : ParseError) (stopped : Cursor)
  | faulted (fault : Fault)

/-- The cursor that a parser came to. -/
def Step.cursor? {α : Type} : Step α → Option Cursor
  | done _ next => some next
  | failed _ stopped => some stopped
  | faulted _ => none

/-- A parser of something. -/
def Parser (α : Type) := Cursor → Step α

namespace Parser

/-- Runs a parser and goes on with its value. -/
def andThen {α β : Type} (parser : Parser α) (next : α → Parser β) : Parser β :=
  fun cursor => match parser cursor with
  | .done value reached => next value reached
  | .failed error stopped => .failed error stopped
  | .faulted fault => .faulted fault

instance : Monad Parser where
  pure value := fun cursor => .done value cursor
  bind := andThen

@[simp]
theorem pure_apply {α : Type} (value : α) (cursor : Cursor)
    : (pure value : Parser α) cursor = .done value cursor := rfl

theorem bind_apply {α β : Type} (parser : Parser α) (next : α → Parser β) (cursor : Cursor)
    : (parser >>= next) cursor =
      match parser cursor with
      | .done value reached => next value reached
      | .failed error stopped => .failed error stopped
      | .faulted fault => .faulted fault := rfl

/-- A parser that leaves an end of the tokens to come, whatever its outcome. -/
def Forward {α : Type} (parser : Parser α) : Prop :=
  ∀ cursor reached, (parser cursor).cursor? = some reached → reached.rest <:+ cursor.rest

theorem Forward.pure {α : Type} (value : α) : Forward (Pure.pure value : Parser α) := by
  intro cursor reached h
  cases h
  exact List.suffix_refl _

theorem Forward.bind {α β : Type} {parser : Parser α} {next : α → Parser β}
    (first : Forward parser) (second : ∀ value, Forward (next value))
    : Forward (parser >>= next) := by
  intro cursor reached h
  rw [bind_apply] at h
  cases hs : parser cursor with
  | done value middle =>
      rw [hs] at h
      exact (second value middle reached h).trans (first cursor middle (by rw [hs]; rfl))
  | failed error stopped =>
      rw [hs] at h
      cases h
      exact first cursor reached (by rw [hs]; rfl)
  | faulted fault =>
      rw [hs] at h
      cases h

end Parser

open LetLang.Parse.Parser

/-- The current token. -/
def current : Parser Token := fun cursor => .done cursor.current cursor

/-- Moves over the current token. -/
def skip : Parser Unit := fun cursor => .done () cursor.advance

/-- Reports an error and stops with it. -/
def fail {α : Type} (error : ParseError) : Parser α := fun cursor =>
  .failed error (cursor.report error)

/-- Asks something that may be a fault to ask. -/
def ask {α : Type} (answer : Except Fault α) : Parser α := fun cursor =>
  match answer with
  | .ok value => .done value cursor
  | .error fault => .faulted fault

/-- Stops at the current token, which cannot stand there. -/
def unexpected {α : Type} (expected : Expected) : Parser α := do
  let token ← current
  fail (.unexpectedToken token.span expected token.kind token.text)

/-- Moves over a token that must be of the given kind. -/
def expect (kind : Token.Kind) : Parser Unit := do
  let token ← current
  if token.kind = kind then skip else unexpected (.token kind)

/-- Moves over the current token if it is of the given kind, and tells whether it is. -/
def accept (kind : Token.Kind) : Parser Bool := do
  let token ← current
  if token.kind = kind then do skip; return true else return false

theorem forward_current : Forward current := by
  intro cursor reached h
  cases h
  exact List.suffix_refl _

theorem forward_skip : Forward skip := by
  intro cursor reached h
  cases h
  rw [Cursor.advance_rest]
  exact List.tail_suffix _

theorem forward_fail {α : Type} (error : ParseError) : Forward (fail error : Parser α) := by
  intro cursor reached h
  cases h
  exact List.suffix_refl _

theorem forward_ask {α : Type} (answer : Except Fault α) : Forward (ask answer) := by
  intro cursor reached h
  cases answer with
  | ok value => cases h; exact List.suffix_refl _
  | error fault => cases h

theorem forward_unexpected {α : Type} (expected : Expected)
    : Forward (unexpected expected : Parser α) :=
  forward_current.bind fun _ => forward_fail _

theorem forward_expect (kind : Token.Kind) : Forward (expect kind) :=
  forward_current.bind fun token => by
    by_cases h : token.kind = kind
    · simpa [h] using forward_skip
    · simpa [h] using forward_unexpected _

theorem forward_accept (kind : Token.Kind) : Forward (accept kind) :=
  forward_current.bind fun token => by
    by_cases h : token.kind = kind
    · simpa [h] using forward_skip.bind fun _ => .pure true
    · simpa [h] using Forward.pure false

end Parse

end LetLang

import LetLang.Proofs.Parse.Statements
import LetLang.Proofs.Tree.Relocation

/-! Parsers at parallel cursors: the tokens ahead of both are the same but for their places, until
the tokens of the left one end. A parser does the same at both. It cannot tell that tokens follow
only on the right, because the tokens on the left then end with a semicolon, and no parser reads
over a semicolon inside a statement.
-/

namespace LetLang

/-- On the right lie the moved tokens of the left and then `tail`. Either there is no tail and
the source ends alike, or the tokens on the left end with a semicolon.
-/
structure Cursor.Parallel (move : Location → Location) (tail : List Token) (left right : Cursor)
    : Prop where
  rest : right.rest = left.rest.map (Token.relocate move) ++ tail
  ends
    : tail = [] ∧ right.stop = move left.stop
      ∨ ∃ mark, left.rest.getLast? = some mark ∧ mark.kind = .semicolon

theorem Cursor.advance_of_rest_eq_nil {cursor : Cursor} (finished : cursor.rest = [])
    : cursor.advance = cursor := by
  simp [advance, finished]

namespace Cursor.Parallel

variable {move : Location → Location} {tail : List Token} {left right : Cursor}

theorem current (parallel : Cursor.Parallel move tail left right)
    : right.current = left.current.relocate move := by
  have ahead := parallel.rest
  cases rest : left.rest with
  | nil =>
      rcases parallel.ends with ⟨rfl, stop⟩ | ⟨mark, last, _⟩
      · rw [rest] at ahead
        simp only [Cursor.current, rest, ahead, stop, List.map_nil, List.append_nil]
        rfl
      · simp [rest] at last
  | cons token others =>
      rw [rest] at ahead
      rw [Cursor.current_eq_of_rest rest, Cursor.current_eq_of_rest ahead]

/-- Reports do not matter. -/
theorem report (parallel : Cursor.Parallel move tail left right) (first second : ParseError)
    : Cursor.Parallel move tail (left.report first) (right.report second) :=
  ⟨parallel.rest, parallel.ends⟩

theorem lower (parallel : Cursor.Parallel move tail left right)
    : Cursor.Parallel move tail left.lower right.lower :=
  ⟨parallel.rest, parallel.ends⟩

/-- One token further on the cursors are parallel again, unless the last semicolon on the left
has been read and only the tail is left.
-/
theorem advance_cases (parallel : Cursor.Parallel move tail left right) (more : left.rest ≠ [])
    : Cursor.Parallel move tail left.advance right.advance
      ∨ left.current.kind = .semicolon ∧ left.advance.rest = [] ∧ right.advance.rest = tail := by
  obtain ⟨token, others, rest⟩ := List.exists_cons_of_ne_nil more
  have ahead := parallel.rest
  rw [rest] at ahead
  have behind : right.advance.rest = left.advance.rest.map (Token.relocate move) ++ tail := by
    rw [Cursor.advance_rest, Cursor.advance_rest, ahead, rest]
    rfl
  have remaining : left.advance.rest = others := by rw [Cursor.advance_rest, rest]; rfl
  rcases parallel.ends with ⟨none, stop⟩ | ⟨mark, last, semicolon⟩
  · refine .inl ⟨behind, .inl ⟨none, ?_⟩⟩
    rw [Cursor.advance_eq_of_rest ahead, Cursor.advance_eq_of_rest rest]
    exact stop
  · rw [rest, List.getLast?_cons] at last
    cases final : others.getLast? with
    | none =>
        rw [final] at last
        obtain rfl := Option.some.inj last
        rw [List.getLast?_eq_none_iff.mp final] at remaining
        refine .inr ⟨?_, remaining, by rw [behind, remaining]; rfl⟩
        rw [Cursor.current_eq_of_rest rest]
        exact semicolon
    | some other =>
        rw [final] at last
        obtain rfl := Option.some.inj last
        exact .inl ⟨behind, .inr ⟨other, remaining.symm ▸ final, semicolon⟩⟩

/-- Both come to the end of file together. -/
theorem rest_eq_nil (parallel : Cursor.Parallel move tail left right) (finished : left.rest = [])
    : right.rest = [] := by
  rcases parallel.ends with ⟨rfl, _⟩ | ⟨mark, last, _⟩
  · rw [parallel.rest, finished]
    rfl
  · simp [finished] at last

theorem advance (parallel : Cursor.Parallel move tail left right)
    (other : left.current.kind ≠ .semicolon)
    : Cursor.Parallel move tail left.advance right.advance := by
  by_cases more : left.rest = []
  · rw [Cursor.advance_of_rest_eq_nil more,
      Cursor.advance_of_rest_eq_nil (parallel.rest_eq_nil more)]
    exact parallel
  · rcases parallel.advance_cases more with further | ⟨semicolon, _⟩
    · exact further
    · exact absurd semicolon other

end Cursor.Parallel

namespace Parse

open LetLang.Parse.Parser

/-- Both steps end alike, with parallel cursors, and `value` makes the right result of the left
one.
-/
inductive Step.Parallel {α : Type} (move : Location → Location) (tail : List Token)
    (value : α → α) : Step α → Step α → Prop
  | done {found left right} (next : Cursor.Parallel move tail left right)
    : Step.Parallel move tail value (.done found left) (.done (value found) right)
  | failed {error left right} (stopped : Cursor.Parallel move tail left right)
    : Step.Parallel move tail value (.failed error left) (.failed (error.relocate move) right)
  | faulted {fault} : Step.Parallel move tail value (.faulted fault) (.faulted fault)

/-- Two parsers end alike at parallel cursors. -/
def Natural {α : Type} (move : Location → Location) (tail : List Token) (value : α → α)
    (left right : Parser α) : Prop :=
  ∀ first second : Cursor, Cursor.Parallel move tail first second
    → Step.Parallel move tail value (left first) (right second)

section

variable {move : Location → Location} {tail : List Token} {α β : Type} {value : α → α}
  {result : β → β}

theorem Natural.pure (found : α)
    : Natural move tail value (Pure.pure found) (Pure.pure (value found)) :=
  fun _ _ parallel => .done parallel

theorem Step.Parallel.bind {left right : Parser α} {next other : α → Parser β}
    {first second : Cursor} (both : Step.Parallel move tail value (left first) (right second))
    (later : ∀ found, Natural move tail result (next found) (other (value found)))
    : Step.Parallel move tail result ((left >>= next) first) ((right >>= other) second) := by
  rw [bind_apply, bind_apply]
  generalize left first = one, right second = two at both
  cases both with
  | done further => exact later _ _ _ further
  | failed stopped => exact .failed stopped
  | faulted => exact .faulted

theorem Natural.bind {left right : Parser α} {next other : α → Parser β}
    (first : Natural move tail value left right)
    (later : ∀ found, Natural move tail result (next found) (other (value found)))
    : Natural move tail result (left >>= next) (right >>= other) :=
  fun _ _ parallel => (first _ _ parallel).bind later

theorem natural_current : Natural move tail (Token.relocate move) current current := by
  intro left right parallel
  unfold current
  rw [parallel.current]
  exact .done parallel

theorem natural_fail (error : ParseError)
    : Natural move tail value (fail error) (fail (error.relocate move)) :=
  fun _ _ parallel => .failed (parallel.report _ _)

theorem natural_ask (answer : Except Fault α) : Natural move tail id (ask answer) (ask answer) := by
  intro left right parallel
  cases answer with
  | ok found => exact .done parallel
  | error fault => exact .faulted

theorem natural_expect {kind : Token.Kind} (other : kind ≠ .semicolon)
    : Natural move tail id (expect kind) (expect kind) := by
  intro left right parallel
  rw [expect_apply, expect_apply, parallel.current]
  by_cases same : left.current.kind = kind
  · rw [if_pos same, if_pos (by exact same)]
    exact .done (parallel.advance (same ▸ other))
  · rw [if_neg same, if_neg (by exact same)]
    exact natural_fail _ _ _ parallel

theorem natural_accept {kind : Token.Kind} (other : kind ≠ .semicolon)
    : Natural move tail id (accept kind) (accept kind) := by
  intro left right parallel
  rw [accept_apply, accept_apply, parallel.current]
  by_cases same : left.current.kind = kind
  · rw [if_pos same, if_pos (by exact same)]
    exact .done (parallel.advance (same ▸ other))
  · rw [if_neg same, if_neg (by exact same)]
    exact .done parallel

theorem natural_atom : Natural move tail (Atom.relocate move) atom atom := by
  intro left right parallel
  rw [atom_apply, atom_apply, parallel.current]
  simp only [Token.relocate_kind, Token.relocate_text, Token.relocate_start]
  cases kind : left.current.kind with
  | identifier => exact .done (parallel.advance (by simp [kind]))
  | boolean => exact .done (parallel.advance (by simp [kind]))
  | number =>
      have further := parallel.advance (by simp [kind])
      by_cases finite : (numberOf left.current.text).isFinite = true
      · simp only [finite, if_true]
        exact .done further
      · simp only [finite, if_false, Bool.false_eq_true]
        exact natural_fail _ _ _ further
  | functionKeyword | letKeyword | typeKeyword | returnKeyword | equals | semicolon | colon
  | endOfFile | unknown => exact natural_fail _ _ _ parallel

theorem natural_name : Natural move tail (Identifier.relocate move) name name := by
  refine natural_current.bind fun token => natural_atom.bind fun found => ?_
  cases found with
  | identifier found => exact .pure found
  | number | boolean => exact natural_fail _

theorem natural_checkVisible (visible : Visibility) (name : Identifier) (isType : Bool)
    : Natural move tail id (checkVisible visible name isType)
        (checkVisible visible (name.relocate move) isType) := by
  refine (natural_ask _).bind fun found => ?_
  cases found with
  | true => exact .pure ()
  | false => exact natural_fail _

theorem natural_checkFree (visible : Visibility) (name : Identifier)
    : Natural move tail id (checkFree visible name)
        (checkFree visible (name.relocate move)) := by
  refine (natural_ask _).bind fun found => ?_
  cases found with
  | true => exact natural_fail _
  | false => exact .pure ()

theorem Step.Parallel.exists_done {found : α} {left : Cursor} {step : Step α}
    (parallel : Step.Parallel move tail value (.done found left) step)
    : ∃ right, step = .done (value found) right ∧ Cursor.Parallel move tail left right := by
  cases parallel with
  | done next => exact ⟨_, rfl, next⟩

/-- One turn of the loop that reads an expression. -/
theorem expressionFrom_apply (visible : Visibility) (targets : List Link) (cursor : Cursor)
    : expressionFrom visible targets cursor
      = match atom cursor with
        | .done (.identifier found) next =>
            match visible found.text with
            | .ok true =>
                if next.current.kind = .equals then
                  expressionFrom visible (⟨found.location, found⟩ :: targets) next.advance
                else
                  .done (Expr.wrap (.atom (.identifier found)) targets) next
            | .ok false => fail (.undeclared (nameSpan found) found.text false) next
            | .error fault => .faulted fault
        | .done leaf next => .done (Expr.wrap (.atom leaf) targets) next
        | .failed error stopped => .failed error stopped
        | .faulted fault => .faulted fault := by
  rw [expressionFrom]
  split
  · next result =>
      rewrite [result]
      rfl
  · next leaf _ plain result =>
      rw [result]
      cases leaf with
      | identifier found => exact absurd rfl (plain found)
      | number | boolean => rfl
  · next result => rw [result]
  · next result => rw [result]

/-- An expression ends alike on both sides. -/
theorem Step.Parallel.wrap {left right : Cursor} (next : Cursor.Parallel move tail left right)
    (leaf : Atom) (targets : List Link)
    : Step.Parallel move tail (Expr.relocate move) (.done (Expr.wrap (.atom leaf) targets) left)
        (.done (Expr.wrap (.atom (leaf.relocate move)) (targets.map (Link.relocate move)))
          right) := by
  have same := Expr.relocate_wrap move (.atom leaf) targets
  rw [Expr.relocate] at same
  rw [← same]
  exact .done next

theorem natural_expression (visible : Visibility)
    : Natural move tail (Expr.relocate move) (expression visible) (expression visible) := by
  suffices general : ∀ targets left right, Cursor.Parallel move tail left right
      → Step.Parallel move tail (Expr.relocate move) (expressionFrom visible targets left)
          (expressionFrom visible (targets.map (Link.relocate move)) right)
    from general []
  intro targets left right parallel
  -- The loop on the left is followed; the one on the right takes the same turn each time.
  have both := natural_atom left right parallel
  fun_induction expressionFrom visible targets left generalizing right with
  | case1 targets left found middle first answer equals ih =>
      rw [first] at both
      obtain ⟨further, result, next⟩ := both.exists_done
      have again : further.current.kind = .equals := by rw [next.current]; exact equals
      have beyond := next.advance (by simp [equals])
      rw [expressionFrom_apply visible _ right, result]
      simp only [Atom.relocate, Identifier.relocate_text, answer, again, if_true]
      exact ih _ beyond (natural_atom _ _ beyond)
  | case2 targets left found middle first answer differs =>
      rw [first] at both
      obtain ⟨further, result, next⟩ := both.exists_done
      have again : further.current.kind ≠ .equals := by rw [next.current]; exact differs
      rw [expressionFrom_apply visible _ right, result]
      simp only [Atom.relocate, Identifier.relocate_text, answer, again, if_false]
      exact .wrap next (.identifier found) targets
  | case3 targets left found middle first answer =>
      rw [first] at both
      obtain ⟨further, result, next⟩ := both.exists_done
      rw [expressionFrom_apply visible _ right, result]
      simp only [Atom.relocate, Identifier.relocate_text, answer]
      exact natural_fail _ _ _ next
  | case4 targets left found middle first fault answer =>
      rw [first] at both
      obtain ⟨further, result, next⟩ := both.exists_done
      rw [expressionFrom_apply visible _ right, result]
      simp only [Atom.relocate, Identifier.relocate_text, answer]
      exact .faulted
  | case5 targets left leaf middle plain first =>
      rw [first] at both
      obtain ⟨further, result, next⟩ := both.exists_done
      rw [expressionFrom_apply visible _ right, result]
      cases leaf with
      | identifier found => exact absurd rfl (plain found)
      | number location value => exact .wrap next (.number location value) targets
      | boolean location value => exact .wrap next (.boolean location value) targets
  | case6 targets left error stopped first =>
      rw [first] at both
      rw [expressionFrom_apply visible _ right]
      generalize atom right = step at both ⊢
      cases both with
      | failed further => exact .failed further
  | case7 targets left fault first =>
      rw [first] at both
      rw [expressionFrom_apply visible _ right]
      generalize atom right = step at both ⊢
      cases both with
      | faulted => exact .faulted

theorem natural_ascription (visible : Visibility)
    : Natural move tail (Option.map (Identifier.relocate move)) (ascription visible)
        (ascription visible) := by
  refine (natural_accept (by simp)).bind fun found => ?_
  cases found with
  | true =>
      exact natural_name.bind fun name => (natural_checkVisible visible name true).bind fun _ =>
        .pure (some name)
  | false => exact .pure none

/-- Behind a token that is no semicolon the parsers go on alike. -/
theorem Step.Parallel.skip {left right : Cursor} {next other : Parser α}
    (parallel : Cursor.Parallel move tail left right) (regular : left.current.kind ≠ .semicolon)
    (later : Natural move tail value next other)
    : Step.Parallel move tail value ((Parse.skip >>= fun _ => next) left)
        ((Parse.skip >>= fun _ => other) right) :=
  later _ _ (parallel.advance regular)

theorem parallel_binding {left right : Cursor} (parallel : Cursor.Parallel move tail left right)
    (regular : left.current.kind ≠ .semicolon) (visible : Visibility) (location : Location)
    : Step.Parallel move tail (Declaration.relocate move) (binding visible location left)
        (binding visible (move location) right) := by
  apply Step.Parallel.skip parallel regular
  exact natural_name.bind fun name => (natural_checkFree visible name).bind fun _ =>
    (natural_ascription visible).bind fun annotated => (natural_expect (by simp)).bind fun _ =>
      (natural_expression visible).bind fun initializer =>
        .pure (Declaration.binding location name annotated initializer)

theorem parallel_typeAlias {left right : Cursor} (parallel : Cursor.Parallel move tail left right)
    (regular : left.current.kind ≠ .semicolon) (visible : Visibility) (location : Location)
    : Step.Parallel move tail (Declaration.relocate move) (typeAlias visible location left)
        (typeAlias visible (move location) right) := by
  apply Step.Parallel.skip parallel regular
  exact natural_name.bind fun name => (natural_checkFree visible name).bind fun _ =>
    (natural_expect (by simp)).bind fun _ => natural_name.bind fun aliased =>
      .pure (Declaration.typeAlias location name aliased)

theorem natural_statementBody (visible : Visibility)
    : Natural move tail (Statement.relocate move) (statementBody visible)
        (statementBody visible) := by
  intro left right parallel
  rw [statementBody_apply, statementBody_apply, parallel.current]
  simp only [Token.relocate_kind, Token.relocate_start]
  cases kind : left.current.kind with
  | letKeyword =>
      exact (parallel_binding parallel (by simp [kind]) visible _).bind fun declared =>
        .pure (Statement.declaration declared)
  | typeKeyword =>
      exact (parallel_typeAlias parallel (by simp [kind]) visible _).bind fun declared =>
        .pure (Statement.declaration declared)
  | functionKeyword | returnKeyword | equals | semicolon | colon | number | boolean | identifier
  | endOfFile | unknown =>
      exact (natural_expression visible left right parallel).bind fun value =>
        .pure (Statement.expression left.current.start value)

end

end Parse

end LetLang

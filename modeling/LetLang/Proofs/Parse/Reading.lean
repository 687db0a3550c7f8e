import LetLang.Parse.Statement
import LetLang.Proofs.Parse.Grammar

/-! What the parsers of single tokens read when they succeed. Each parser is described by the
tokens that its cursor moves over; descriptions compose along the parsers that use them.
-/

namespace LetLang

/-- The cursor `next` stands behind the tokens `read`, which start at the cursor. -/
inductive Cursor.Reads : Cursor → List Token → Cursor → Prop
  | nil {cursor : Cursor} : cursor.Reads [] cursor
  | cons {cursor next : Cursor} {token rest read} (head : cursor.rest = token :: rest)
    (tail : cursor.advance.Reads read next)
    : cursor.Reads (token :: read) next

namespace Cursor

theorem current_eq_of_rest {cursor : Cursor} {token : Token} {rest : List Token}
    (head : cursor.rest = token :: rest)
    : cursor.current = token := by
  simp [current, head]

theorem advance_eq_of_rest {cursor : Cursor} {token : Token} {rest : List Token}
    (head : cursor.rest = token :: rest)
    : cursor.advance = { cursor with previous := some token, rest } := by
  simp [advance, head]

theorem Reads.rest_eq {cursor next : Cursor} {read : List Token} (reads : cursor.Reads read next)
    : cursor.rest = read ++ next.rest := by
  induction reads with
  | nil => rfl
  | cons head tail ih =>
      rw [advance_eq_of_rest head] at ih
      rw [head, List.cons_append, ← ih]

theorem Reads.frame {cursor next : Cursor} {read : List Token} (reads : cursor.Reads read next)
    : next.stop = cursor.stop ∧ next.reports = cursor.reports := by
  induction reads with
  | nil => exact ⟨rfl, rfl⟩
  | cons head tail ih => rwa [advance_eq_of_rest head] at ih

/-- The token before the cursor is the last one read, if any was. -/
theorem Reads.previous_eq {cursor next : Cursor} {read : List Token}
    (reads : cursor.Reads read next)
    : next.previous = read.getLast?.or cursor.previous := by
  induction reads with
  | nil => rfl
  | @cons cursor next token rest read head tail ih =>
      rw [ih, advance_eq_of_rest head, List.getLast?_cons]
      cases read.getLast? <;> rfl

theorem Reads.trans {cursor middle next : Cursor} {first second : List Token}
    (left : cursor.Reads first middle) (right : middle.Reads second next)
    : cursor.Reads (first ++ second) next := by
  induction left with
  | nil => exact right
  | cons head _ ih => exact .cons head (ih right)

theorem Reads.single {cursor : Cursor} {token : Token} {rest : List Token}
    (head : cursor.rest = token :: rest)
    : cursor.Reads [token] cursor.advance :=
  .cons head .nil

theorem reads_nil_iff {cursor next : Cursor} : cursor.Reads [] next ↔ next = cursor := by
  refine ⟨fun reads => ?_, fun same => same ▸ .nil⟩
  cases reads
  rfl

theorem reads_cons_iff {cursor next : Cursor} {token : Token} {read : List Token}
    : cursor.Reads (token :: read) next
      ↔ ∃ middle, cursor.Reads [token] middle ∧ middle.Reads read next := by
  constructor
  · intro reads
    cases reads with
    | cons head tail => exact ⟨_, .single head, tail⟩
  · intro given
    obtain ⟨_, first, second⟩ := given
    exact first.trans second

theorem reads_single_iff {cursor next : Cursor} {token : Token}
    : cursor.Reads [token] next ↔ cursor.rest.head? = some token ∧ next = cursor.advance := by
  constructor
  · intro reads
    cases reads with
    | cons head tail => exact ⟨by simp [head], reads_nil_iff.mp tail⟩
  · intro ahead
    obtain ⟨head, rfl⟩ := ahead
    cases rest : cursor.rest with
    | nil => simp [rest] at head
    | cons first rest =>
        simp only [rest, List.head?_cons, Option.some.injEq] at head
        subst head
        exact .single ‹_›

/-- Tokens that lie ahead can be read. -/
theorem exists_reads {cursor : Cursor} {read rest : List Token}
    (ahead : cursor.rest = read ++ rest)
    : ∃ next, cursor.Reads read next ∧ next.rest = rest := by
  induction read generalizing cursor with
  | nil => exact ⟨cursor, .nil, ahead⟩
  | cons token read ih =>
      have further : cursor.advance.rest = read ++ rest := by
        rw [advance_rest, ahead]
        rfl
      obtain ⟨next, reads, left⟩ := ih further
      exact ⟨next, .cons ahead reads, left⟩

theorem Reads.current_of_kind {cursor next : Cursor} {token : Token}
    (reads : cursor.Reads [token] next)
    : cursor.current = token ∧ next = cursor.advance := by
  obtain ⟨head, rfl⟩ := reads_single_iff.mp reads
  refine ⟨?_, rfl⟩
  cases rest : cursor.rest with
  | nil => simp [rest] at head
  | cons first rest =>
      simp only [rest, List.head?_cons, Option.some.injEq] at head
      exact head ▸ current_eq_of_rest ‹_›

/-- A current token that is not the end of file can be read. -/
theorem reads_current (cursor : Cursor) (kind : cursor.current.kind ≠ .endOfFile)
    : cursor.Reads [cursor.current] cursor.advance := by
  cases rest : cursor.rest with
  | nil => simp [current, rest, Token.endOfFile] at kind
  | cons token rest =>
      rw [current_eq_of_rest ‹_›]
      exact .single ‹_›

end Cursor

namespace Parse

open LetLang.Parse.Parser LetLang.Grammar

/-- The answers of `visible` are those for the given names, and never a fault. -/
def Decides (visible : Visibility) (names : Set String) : Prop :=
  ∀ name,
    name ∈ names ∧ visible name = .ok true ∨ name ∉ names ∧ visible name = .ok false

theorem bind_done_iff {α β : Type} {parser : Parser α} {next : α → Parser β}
    {cursor reached : Cursor} {result : β}
    : (parser >>= next) cursor = .done result reached
      ↔ ∃ value middle, parser cursor = .done value middle
          ∧ next value middle = .done result reached := by
  rw [bind_apply]
  cases parser cursor <;> simp

theorem pure_done_iff {α : Type} {value result : α} {cursor reached : Cursor}
    : (pure value : Parser α) cursor = .done result reached
      ↔ value = result ∧ cursor = reached := by
  simp

theorem bind_pure_done_iff {α β : Type} {parser : Parser α} {wrap : α → β}
    {cursor reached : Cursor} {result : β}
    : (parser >>= fun value => pure (wrap value)) cursor = .done result reached
      ↔ ∃ value, result = wrap value ∧ parser cursor = .done value reached := by
  simp only [bind_done_iff, pure_done_iff]
  constructor
  · intro ahead
    obtain ⟨value, _, done, rfl, rfl⟩ := ahead
    exact ⟨value, rfl, done⟩
  · intro ahead
    obtain ⟨value, rfl, done⟩ := ahead
    exact ⟨value, reached, done, rfl, rfl⟩

theorem expect_done_iff (kind : Token.Kind) (regular : kind ≠ .endOfFile)
    {cursor next : Cursor}
    : expect kind cursor = .done () next
      ↔ ∃ token, cursor.Reads [token] next ∧ token.kind = kind := by
  rw [expect_apply]
  constructor
  · intro read
    split at read
    · next same =>
        cases read
        exact ⟨_, Cursor.reads_current _ (same ▸ regular), same⟩
    · cases read
  · intro given
    obtain ⟨token, reads, same⟩ := given
    obtain ⟨rfl, rfl⟩ := reads.current_of_kind
    rw [if_pos same]

/-- A token of the kind is read if it stands there, and otherwise nothing is. -/
theorem accept_apply (kind : Token.Kind) (cursor : Cursor)
    : accept kind cursor =
      if cursor.current.kind = kind then .done true cursor.advance else .done false cursor := by
  simp only [accept, bind_apply, current]
  split <;> rfl

/-- An atom is the token at the cursor, and a number has to be finite. -/
theorem atom_done_iff {cursor next : Cursor} {found : Atom}
    : atom cursor = .done found next
      ↔ ∃ token, cursor.Reads [token] next ∧ AtomForm token found ∧ found.IsFinite := by
  rw [atom_apply]
  constructor
  · intro read
    split at read
    · next kind =>
        cases read
        exact ⟨_, Cursor.reads_current _ (by simp [kind]), .identifier kind, trivial⟩
    · next kind =>
        split at read
        · next finite =>
            cases read
            exact ⟨_, Cursor.reads_current _ (by simp [kind]), .number kind, finite⟩
        · cases read
    · next kind =>
        cases read
        exact ⟨_, Cursor.reads_current _ (by simp [kind]), .boolean kind, trivial⟩
    · cases read
  · intro given
    obtain ⟨token, reads, form, finite⟩ := given
    obtain ⟨rfl, rfl⟩ := reads.current_of_kind
    cases form with
    | identifier kind => rw [kind]; rfl
    | number kind =>
        rw [kind]
        exact if_pos finite
    | boolean kind => rw [kind]

theorem name_done_iff {cursor next : Cursor} {found : Identifier}
    : name cursor = .done found next
      ↔ ∃ token, cursor.Reads [token] next ∧ token.kind = .identifier ∧ found = token.name := by
  have unfolded : name cursor = .done found next
      ↔ atom cursor = .done (.identifier found) next := by
    simp only [name, bind_apply, current]
    cases atom cursor with
    | done leaf reached => cases leaf <;> simp [fail]
    | failed error stopped => simp
    | faulted fault => simp
  rw [unfolded, atom_done_iff]
  constructor
  · intro given
    obtain ⟨token, reads, form, _⟩ := given
    cases form with
    | identifier kind => exact ⟨token, reads, kind, rfl⟩
  · intro ahead
    obtain ⟨token, reads, kind, rfl⟩ := ahead
    exact ⟨token, reads, .identifier kind, trivial⟩

section Names

variable {visible : Visibility} {names : Set String}

theorem checkVisible_done_iff (decides : Decides visible names) {name : Identifier}
    {isType : Bool} {cursor next : Cursor}
    : checkVisible visible name isType cursor = .done () next
      ↔ name.text ∈ names ∧ cursor = next := by
  simp only [checkVisible, bind_apply, ask]
  rcases decides name.text with ⟨member, answer⟩ | ⟨absent, answer⟩
  · simp [answer, member]
  · simp [answer, absent, fail]

theorem checkFree_done_iff (decides : Decides visible names) {name : Identifier}
    {cursor next : Cursor}
    : checkFree visible name cursor = .done () next ↔ name.text ∉ names ∧ cursor = next := by
  simp only [checkFree, bind_apply, ask]
  rcases decides name.text with ⟨member, answer⟩ | ⟨absent, answer⟩
  · simp [answer, member, fail]
  · simp [answer, absent]

end Names

end Parse

end LetLang

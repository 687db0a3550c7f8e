import LetLang.Proofs.Parse.Reporting
import LetLang.Proofs.Token.Order
import Mathlib.Order.Bounds.Basic

/-! Recovery after errors. The attempts of a parse split the tokens into consecutive ranges, one
to an attempt; behind a failed attempt the next one starts at the first boundary between
statements that lies further on.
-/

namespace LetLang

/-- A cursor stands before the token with the given index. -/
structure Cursor.StandsAt (cursor : Cursor) (tokens : List Token) (index : Nat) : Prop where
  inside : index ≤ tokens.length
  rest : cursor.rest = tokens.drop index
  previous : cursor.previous = (tokens.take index).getLast?

namespace Parse

/-- A statement can start at an index: at the end, behind a semicolon or at a keyword. -/
def Boundary (tokens : List Token) (index : Nat) : Prop :=
  index = tokens.length
  ∨ (∃ token, tokens[index - 1]? = some token ∧ token.kind = .semicolon)
  ∨ ∃ token, tokens[index]? = some token
      ∧ token.kind ∈ [.functionKeyword, .letKeyword, .typeKeyword, .returnKeyword]

/-- An attempt has read a statement: the tokens from `first` up to `next`, of which the last and
no other is a semicolon.
-/
structure Attempt.ReadsRange (made : Attempt) (tokens : List Token) (first next : Nat)
    (found : Statement) : Prop where
  start : made.start.StandsAt tokens first
  result : made.outcome.result = .ok found
  stopped : made.outcome.stopped.StandsAt tokens next
  progress : first < next
  closed : ∃ mark, tokens[next - 1]? = some mark ∧ mark.kind = .semicolon
  only
    : ∀ index token,
        first ≤ index → index + 1 < next → tokens[index]? = some token
        → token.kind ≠ .semicolon

/-- An attempt has failed at token `reached`; the next one starts at the first boundary that is
neither before that nor at the first token.
-/
structure Attempt.FailsInRange (made : Attempt) (tokens : List Token) (first reached next : Nat)
    (error : ParseError) : Prop where
  start : made.start.StandsAt tokens first
  result : made.outcome.result = .error error
  stopped : made.outcome.stopped.StandsAt tokens reached
  forward : first ≤ reached
  least : IsLeast {index | max reached (first + 1) ≤ index ∧ Boundary tokens index} next

/-- The attempts from token `first` on. Each takes the tokens up to where the next one starts
and adds either a statement or an error with its diagnostic.
-/
inductive Partition (tokens : List Token) (file : Option String)
    : Nat → List Attempt → List Statement → List ParseError → List Diagnostic → Prop
  | done : Partition tokens file tokens.length [] [] [] []
  | read {first next : Nat} {made : Attempt} {rest found statements errors diagnostics}
    (range : made.ReadsRange tokens first next found)
    (resumed : made.next.StandsAt tokens next)
    (later : Partition tokens file next rest statements errors diagnostics)
    : Partition tokens file first (made :: rest) (found :: statements) errors diagnostics
  | failed {first reached next : Nat} {made : Attempt}
    {rest error statements errors diagnostics}
    (range : made.FailsInRange tokens first reached next error)
    (resumed : made.next.StandsAt tokens next)
    (later : Partition tokens file next rest statements errors diagnostics)
    : Partition tokens file first (made :: rest) statements (error :: errors)
        ({ error.diagnostic with file := file } :: diagnostics)

end Parse

-----------------------------------------------------------------------------------------
-- Cursors by index
-----------------------------------------------------------------------------------------

namespace Cursor

variable {cursor next : Cursor} {tokens read : List Token} {index : Nat}

theorem standsAt_ofTokens (file : Option String) (tokens : List Token) (stop : Location)
    : (ofTokens file tokens stop).StandsAt tokens 0 :=
  ⟨Nat.zero_le _, rfl, rfl⟩

theorem StandsAt.report (stands : cursor.StandsAt tokens index) (error : ParseError)
    : (cursor.report error).StandsAt tokens index :=
  ⟨stands.inside, stands.rest, stands.previous⟩

theorem StandsAt.lower (stands : cursor.StandsAt tokens index)
    : cursor.lower.StandsAt tokens index :=
  ⟨stands.inside, stands.rest, stands.previous⟩

/-- Reading moves the index by the number of tokens read. -/
theorem StandsAt.reads (stands : cursor.StandsAt tokens index) (reads : cursor.Reads read next)
    : next.StandsAt tokens (index + read.length) := by
  have ahead := reads.rest_eq
  rw [stands.rest] at ahead
  have length := congrArg List.length ahead
  simp only [List.length_drop, List.length_append] at length
  have inside := stands.inside
  have taken : tokens.take (index + read.length) = tokens.take index ++ read := by
    rw [List.take_add, ahead, List.take_left]
  refine ⟨?_, ?_, ?_⟩
  · omega
  · rw [← List.drop_drop, ahead, List.drop_left]
  · rw [reads.previous_eq, taken, List.getLast?_append, stands.previous]

/-- The tokens from the cursor on are those that are read. -/
theorem StandsAt.getElem?_read (stands : cursor.StandsAt tokens index)
    (reads : cursor.Reads read next) {other : Nat} {token : Token} (lower : index ≤ other)
    (upper : other < index + read.length) (found : tokens[other]? = some token)
    : read[other - index]? = some token := by
  have ahead : tokens.drop index = read ++ next.rest := by
    rw [← stands.rest, reads.rest_eq]
  have same : (tokens.drop index)[other - index]? = some token := by
    rw [List.getElem?_drop, Nat.add_sub_cancel' lower, found]
  rwa [ahead, List.getElem?_append_left (by omega)] at same

theorem StandsAt.current (stands : cursor.StandsAt tokens index) {token : Token}
    (found : tokens[index]? = some token)
    : cursor.current = token := by
  obtain ⟨inside, rfl⟩ := List.getElem?_eq_some_iff.mp found
  exact current_eq_of_rest (stands.rest.trans (List.drop_eq_getElem_cons inside))

theorem StandsAt.previous_eq (stands : cursor.StandsAt tokens index) (behind : 0 < index)
    : cursor.previous = tokens[index - 1]? := by
  have inside := stands.inside
  rw [stands.previous, List.getLast?_take, if_neg (by omega), List.getElem?_eq_getElem (by omega)]
  rfl

theorem StandsAt.rest_eq_nil_iff (stands : cursor.StandsAt tokens index)
    : cursor.rest = [] ↔ index = tokens.length := by
  have inside := stands.inside
  rw [stands.rest, List.drop_eq_nil_iff]
  omega

/-- Behind the last token stands the end of file. -/
theorem StandsAt.getElem?_eq_current (stands : cursor.StandsAt tokens index)
    : (tokens ++ [Token.endOfFile cursor.stop])[index]? = some cursor.current := by
  rcases Nat.eq_or_lt_of_le stands.inside with rfl | inside
  · simp [Cursor.current, stands.rest_eq_nil_iff.mpr rfl]
  · rw [List.getElem?_append_left inside, List.getElem?_eq_getElem inside,
      stands.current (List.getElem?_eq_getElem inside)]

theorem StandsAt.lt_length (stands : cursor.StandsAt tokens index) (more : cursor.rest ≠ [])
    : index < tokens.length :=
  Nat.lt_of_le_of_ne stands.inside (mt stands.rest_eq_nil_iff.mpr more)

/-- A cursor stands before one token only. -/
theorem StandsAt.index_eq {other : Nat} (stands : cursor.StandsAt tokens index)
    (also : cursor.StandsAt tokens other)
    : index = other := by
  have length := congrArg List.length (stands.rest.symm.trans also.rest)
  have inside := stands.inside
  have alsoInside := also.inside
  simp only [List.length_drop] at length
  omega

end Cursor

namespace Parse

open LetLang.Grammar

-----------------------------------------------------------------------------------------
-- Where recovery goes
-----------------------------------------------------------------------------------------

theorem isKeyword_iff (kind : Token.Kind)
    : kind.isKeyword = true
      ↔ kind ∈ [.functionKeyword, .letKeyword, .typeKeyword, .returnKeyword] := by
  cases kind <;> decide

/-- The test that ends the skipping is the one for a boundary. -/
theorem boundary_iff {cursor : Cursor} {tokens rest : List Token} {token : Token} {index : Nat}
    (stands : cursor.StandsAt tokens index) (behind : 0 < index)
    (head : cursor.rest = token :: rest)
    : Boundary tokens index
      ↔ cursor.previous.any (·.kind = .semicolon) = true ∨ token.kind.isKeyword = true := by
  have inside : index ≠ tokens.length := by
    intro finished
    simp [stands.rest_eq_nil_iff.mpr finished] at head
  have current : tokens[index]? = some token := by
    rw [← List.head?_drop, ← stands.rest, head]
    rfl
  rw [Boundary, stands.previous_eq behind, current, isKeyword_iff]
  simp [inside, Option.any_eq_true]

/-- Skipping goes to the first boundary at or behind the cursor. -/
theorem skipToBoundary_isLeast {cursor : Cursor} {tokens : List Token} {index : Nat}
    (stands : cursor.StandsAt tokens index) (behind : 0 < index)
    : ∃ next, (skipToBoundary cursor).StandsAt tokens next
        ∧ IsLeast {other | index ≤ other ∧ Boundary tokens other} next := by
  fun_induction skipToBoundary cursor generalizing index with
  | case1 cursor finished =>
      have last := stands.rest_eq_nil_iff.mp finished
      exact ⟨index, stands, ⟨Nat.le_refl _, .inl last⟩, fun _ bound => bound.1⟩
  | case2 cursor token rest head stops =>
      have here := (boundary_iff stands behind head).mpr stops
      exact ⟨index, stands, ⟨Nat.le_refl _, here⟩, fun _ bound => bound.1⟩
  | case3 cursor token rest head goes ih =>
      obtain ⟨next, reached, ⟨lower, boundary⟩, least⟩ :=
        ih (stands.reads (.single head)) (Nat.succ_pos _)
      refine ⟨next, reached, ⟨Nat.le_of_succ_le lower, boundary⟩, ?_⟩
      intro other candidate
      obtain ⟨bound, found⟩ := candidate
      rcases Nat.eq_or_lt_of_le bound with rfl | further
      · exact absurd ((boundary_iff stands behind head).mp found) goes
      · exact least ⟨further, found⟩

/-- The end of file comes behind all tokens. -/
theorem pairwise_append_endOfFile {tokens : List Token} {stop : Location}
    (sorted : tokens.Pairwise fun left right => left.start < right.start)
    (bounded : ∀ token ∈ tokens, token.start < stop)
    : (tokens ++ [Token.endOfFile stop]).Pairwise fun left right => left.start < right.start := by
  refine List.pairwise_append.mpr ⟨sorted, List.pairwise_singleton _ _, ?_⟩
  intro left member right last
  rw [List.mem_singleton.mp last]
  exact bounded left member

/-- Positions tell tokens apart, and the end of file from all of them. -/
theorem index_eq_of_start_eq {tokens : List Token} {stop : Location}
    (sorted : tokens.Pairwise fun left right => left.start < right.start)
    (bounded : ∀ token ∈ tokens, token.start < stop) {index other : Nat} {token another : Token}
    (here : (tokens ++ [Token.endOfFile stop])[index]? = some token)
    (there : (tokens ++ [Token.endOfFile stop])[other]? = some another)
    (same : token.start = another.start)
    : index = other := by
  have increases := List.pairwise_iff_getElem.mp (pairwise_append_endOfFile sorted bounded)
  obtain ⟨inside, rfl⟩ := List.getElem?_eq_some_iff.mp here
  obtain ⟨alsoInside, rfl⟩ := List.getElem?_eq_some_iff.mp there
  rcases Nat.lt_trichotomy index other with before | equal | behind
  · exact absurd same (Nat.ne_of_lt (increases _ _ inside alsoInside before))
  · exact equal
  · exact absurd same.symm (Nat.ne_of_lt (increases _ _ alsoInside inside behind))

theorem current_start_eq_iff {start stopped : Cursor} {tokens : List Token}
    {first reached : Nat}
    (sorted : tokens.Pairwise fun left right => left.start < right.start)
    (bounded : ∀ token ∈ tokens, token.start < stopped.stop)
    (starts : start.StandsAt tokens first) (stops : stopped.StandsAt tokens reached)
    (more : first < tokens.length)
    : stopped.current.start = start.current.start ↔ reached = first := by
  have there := stops.getElem?_eq_current
  have here : (tokens ++ [Token.endOfFile stopped.stop])[first]? = some start.current := by
    have found := List.getElem?_eq_getElem more
    rw [List.getElem?_append_left more, found, starts.current found]
  constructor
  · exact index_eq_of_start_eq sorted bounded there here
  · intro same
    rw [same] at there
    rw [Option.some.inj (there.symm.trans here)]

/-- Behind a failed attempt the next one starts at the first boundary that is neither before
where it stopped nor at its first token.
-/
theorem resynchronize_isLeast {start stopped : Cursor} {tokens : List Token}
    {first reached : Nat}
    (sorted : tokens.Pairwise fun left right => left.start < right.start)
    (bounded : ∀ token ∈ tokens, token.start < stopped.stop)
    (starts : start.StandsAt tokens first) (stops : stopped.StandsAt tokens reached)
    (more : first < tokens.length) (forward : first ≤ reached)
    : ∃ next, (resynchronize start.current.start stopped).StandsAt tokens next
        ∧ IsLeast {index | max reached (first + 1) ≤ index ∧ Boundary tokens index} next := by
  have same := current_start_eq_iff sorted bounded starts stops more
  unfold resynchronize
  by_cases stuck : reached = first
  · subst stuck
    have token := List.getElem?_eq_getElem more
    have single := Cursor.Reads.single (stops.rest.trans (List.drop_eq_getElem_cons more))
    rw [if_pos (same.mpr rfl), Nat.max_eq_right (Nat.le_succ _)]
    exact skipToBoundary_isLeast (stops.reads single) (Nat.succ_pos _)
  · have further : first < reached := by omega
    rw [if_neg (fun position => stuck (same.mp position)), Nat.max_eq_left further]
    exact skipToBoundary_isLeast stops (by omega)

-----------------------------------------------------------------------------------------
-- The partition
-----------------------------------------------------------------------------------------

/-- A statement that was read takes the tokens of its derivation and a semicolon. -/
theorem readsRange_of_reads {made : Attempt} {cursor middle : Cursor} {tokens read : List Token}
    {first : Nat} {found : Statement} (start : made.start = cursor)
    (stands : cursor.StandsAt tokens first) (reads : cursor.Reads read middle)
    (form : StatementForm read found) (semicolon : middle.current.kind = .semicolon)
    (result : made.outcome.result = .ok found)
    (stopped : made.outcome.stopped = middle.advance)
    : made.ReadsRange tokens first (first + read.length + 1) found := by
  have last := Cursor.reads_current middle (by simp [semicolon])
  have middleStands := stands.reads reads
  have ahead : tokens.drop first = read ++ middle.rest := by
    rw [← stands.rest, reads.rest_eq]
  refine ⟨start ▸ stands, result, stopped ▸ middleStands.reads last, by omega, ?_, ?_⟩
  · refine ⟨middle.current, ?_, semicolon⟩
    rw [Nat.add_sub_cancel, ← List.head?_drop, ← middleStands.rest, last.rest_eq]
    rfl
  · intro index token lower upper here
    have inside : index - first < read.length := by omega
    have member : token ∈ read := by
      have same : (tokens.drop first)[index - first]? = some token := by
        rw [List.getElem?_drop, Nat.add_sub_cancel' lower, here]
      rw [ahead, List.getElem?_append_left inside] at same
      exact List.mem_of_getElem? same
    exact form.kind_ne_semicolon member

/-- An attempt takes at least one token and leaves the end of the source where it is. -/
theorem Attempt.From.range {made : Attempt} {tree : ScopeTree} {scope : Nat} {cursor : Cursor}
    (attempted : made.From tree scope cursor) {tokens : List Token} {first : Nat}
    (sorted : tokens.Pairwise fun left right => left.start < right.start)
    (bounded : ∀ token ∈ tokens, token.start < cursor.stop)
    (stands : cursor.StandsAt tokens first) (more : first < tokens.length)
    : made.next.stop = cursor.stop
      ∧ ∃ next, made.next.StandsAt tokens next
          ∧ ((∃ found, made.ReadsRange tokens first next found)
            ∨ ∃ reached error, made.FailsInRange tokens first reached next error) := by
  have next := attempted.next
  -- Both kinds of failure have stopped behind tokens they read, and are resumed alike.
  have resume : ∀ {error read} {middle : Cursor}, cursor.Reads read middle
      → made.outcome.result = .error error
      → made.outcome.stopped = middle.report error
      → made.next.stop = cursor.stop
        ∧ ∃ next reached, made.next.StandsAt tokens next
            ∧ made.FailsInRange tokens first reached next error := by
    intro error read middle reads result stopped
    have stops := (stands.reads reads).report error
    have stop : (middle.report error).stop = cursor.stop := reads.frame.1
    rw [← stopped] at stops stop
    have forward : first ≤ first + read.length := by omega
    obtain ⟨index, resumes, least⟩ := resynchronize_isLeast sorted
      (fun token member => stop ▸ bounded token member) stands stops more forward
    obtain ⟨_, further⟩ := resynchronize_reads cursor.current.start made.outcome.stopped
    simp only [continuation, result] at next
    refine ⟨?_, index, first + read.length, next ▸ resumes.lower, ?_⟩
    · rw [next, ← stop, ← further.frame.1]
      rfl
    · exact ⟨attempted.start ▸ stands, result, stops, forward, least⟩
  have outcome := attempted.outcome
  generalize same : made.outcome = result at outcome
  cases outcome with
  | @read read found middle reads whole semicolon =>
      have range := readsRange_of_reads attempted.start stands reads whole.form semicolon
        (by rw [same]) (by rw [same])
      have last := Cursor.reads_current middle (by simp [semicolon])
      have resumed : made.next = made.outcome.stopped := by rw [next, same]; rfl
      refine ⟨?_, _, resumed ▸ range.stopped, .inl ⟨found, range⟩⟩
      rw [resumed, same]
      exact (reads.trans last).frame.1
  | unterminated reads whole missing =>
      obtain ⟨stop, index, reached, resumed, range⟩ := resume reads (by rw [same]) (by rw [same])
      exact ⟨stop, index, resumed, .inr ⟨reached, _, range⟩⟩
  | broken reads other hopeless =>
      obtain ⟨stop, index, reached, resumed, range⟩ := resume reads (by rw [same]) (by rw [same])
      exact ⟨stop, index, resumed, .inr ⟨reached, _, range⟩⟩

/-- A run goes through the tokens range by range, by induction over its attempts. -/
theorem Run.partition {scope : Nat} {tree after : ScopeTree} {cursor : Cursor}
    {attempts : List Attempt} {reports : Reports}
    (run : Run scope tree cursor attempts after reports) {tokens : List Token} {first : Nat}
    (file : Option String)
    (sorted : tokens.Pairwise fun left right => left.start < right.start)
    (bounded : ∀ token ∈ tokens, token.start < cursor.stop)
    (stands : cursor.StandsAt tokens first)
    : Partition tokens file first attempts (attempts.filterMap Attempt.statement?)
        (attempts.filterMap Attempt.error?)
        ((attempts.filterMap Attempt.error?).map fun error =>
          { error.diagnostic with file := file }) := by
  induction run generalizing first with
  | done finished =>
      rw [stands.rest_eq_nil_iff.mp finished]
      exact .done
  | @step tree cursor made rest after reports more _ _ attempted later ih =>
      have inside := stands.lt_length more
      obtain ⟨stop, next, resumed, range⟩ := attempted.range sorted bounded stands inside
      have tail := ih (fun token member => stop ▸ bounded token member) resumed
      rcases range with ⟨found, range⟩ | ⟨reached, error, range⟩
      · simpa [Attempt.statement?, Attempt.error?, range.result]
          using Partition.read range resumed tail
      · simpa [Attempt.statement?, Attempt.error?, range.result]
          using Partition.failed range resumed tail

/-- Every parse ends, and its attempts are a partition of the tokens in which each range gives
one statement or one error; the diagnostics are those of the errors, one by one.
-/
theorem parseIn_partition {tree : ScopeTree} (wellFormed : tree.WellFormed) {scope : Nat}
    (inside : scope < tree.size) (file : Option String) (source : String)
    : ∃ session, parseIn tree scope file source = .ok session
        ∧ Partition (Token.tokenize source.toList) file 0 session.attempts
            session.tree.statements session.errors session.diagnostics
        ∧ ∀ index : Nat,
            session.diagnostics[index]?
            = session.errors[index]?.map fun error => { error.diagnostic with file := file } := by
  obtain ⟨session, parsed, _, run⟩ := exists_session wellFormed inside file source
  obtain ⟨reported, diagnosed⟩ := run.session_reports
  rw [funext (Reports.diagnose_eq file)] at diagnosed
  have partition := run.partition file (Token.tokenize_sorted source.toList)
    (fun token member => Token.start_lt_of_mem_tokenize member)
    (Cursor.standsAt_ofTokens file _ _)
  refine ⟨session, parsed, ?_, ?_⟩
  · rw [reported, diagnosed]
    exact partition
  · intro index
    rw [diagnosed, ← reported, List.getElem?_map]

theorem parseIn_partition_inner
    : let tree := (ScopeTree.new.push ScopeTree.root).1
      let source := "let a = ; = let b = 1 return x; b;"
      (tree.WellFormed ∧ 1 < tree.size)
      ∧ ∃ session, parseIn tree 1 (some "main.ql") source = .ok session
        ∧ Partition (Token.tokenize source.toList) (some "main.ql") 0 session.attempts
            session.tree.statements session.errors session.diagnostics
        ∧ ∀ index : Nat,
            session.diagnostics[index]?
            = session.errors[index]?.map fun error =>
                { error.diagnostic with file := some "main.ql" } :=
  ⟨by decide, parseIn_partition (by decide) (by decide) (some "main.ql") _⟩

end Parse

end LetLang

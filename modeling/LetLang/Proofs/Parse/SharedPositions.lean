import LetLang.Proofs.Parse.ErrorOrder

/-! Errors at one position. Errors come in the order of their positions, and two of them share one
only where an attempt has stopped before a keyword that no statement starts with: the attempt that
starts at that keyword fails there as well and leaves it behind.
-/

namespace LetLang.Parse

open LetLang.Grammar LetLang.Token LetLang.Text

/-- An attempt of a parse of the source, which starts at the token with the given index. -/
structure Attempt.MadeIn (made : Attempt) (source : String) (scope first : Nat) : Prop where
  result : attempt made.before scope made.start = .ok made
  wellFormed : made.before.WellFormed
  within : scope < made.before.size
  stands : made.start.StandsAt (tokenize source.toList) first
  stop : made.start.stop = byteLength source.toList
  more : first < (tokenize source.toList).length

/-- A failed attempt has refused the token with index `blamed`. If that is the first one, it is no
keyword of a declaration; and if the next attempt starts there, the failed one has stopped before
it, since it is a keyword or the end of file.
-/
structure Attempt.RefusesAt (made : Attempt) (source : String) (first blamed : Nat)
    (error : ParseError) (token : Token) : Prop where
  found
    : (tokenize source.toList ++ [endOfFile (byteLength source.toList)])[blamed]? = some token
  blames : Blames error token
  opening : blamed = first → token.kind ≠ .letKeyword ∧ token.kind ≠ .typeKeyword
  stopped
    : made.next.current.start = token.start
      → made.outcome.stopped.StandsAt (tokenize source.toList) blamed
  boundary
    : made.next.current.start = token.start
      → blamed = (tokenize source.toList).length ∨ token.kind.isKeyword = true

/-- Attempts in the order of their positions: each one moves on, its error lies between where it
starts and where it moves to, and the later ones start there or behind.
-/
structure InOrder (attempts : List Attempt) : Prop where
  forward : ∀ made ∈ attempts, made.start.current.start < made.next.current.start
  between
    : ∀ made ∈ attempts, ∀ error ∈ made.error?,
        made.start.current.start ≤ error.span.start
        ∧ error.span.start ≤ made.next.current.start
  apart
    : attempts.Pairwise fun left right =>
        left.next.current.start ≤ right.start.current.start

/-- `left` has stopped before a keyword with which no statement starts and has refused it; `right`
starts at that keyword and fails there too.
-/
structure Attempt.MeetAt (left right : Attempt) (tokens : List Token) (index : Nat)
    (keyword : Token) : Prop where
  here : tokens[index]? = some keyword
  kind : keyword.kind = .functionKeyword ∨ keyword.kind = .returnKeyword
  stopped : left.outcome.stopped.StandsAt tokens index
  refused
    : ∃ expected,
        left.error?
        = some (.unexpectedToken keyword.span expected keyword.kind keyword.text)
  resumed : right.start.StandsAt tokens index
  again : ∃ error, right.error? = some error ∧ error.span = keyword.span

-----------------------------------------------------------------------------------------
-- The attempts of a parse
-----------------------------------------------------------------------------------------

theorem Attempt.error?_eq_some_iff {made : Attempt} {error : ParseError}
    : made.error? = some error ↔ made.outcome.result = .error error := by
  unfold Attempt.error?
  split
  · next found => simp [found]
  · next other => simp [other]

theorem exists_madeIn {tree : ScopeTree} (wellFormed : tree.WellFormed) {scope : Nat}
    (inside : scope < tree.size) {file : Option String} {source : String} {session : Session}
    (parsed : parseIn tree scope file source = .ok session) {made : Attempt}
    (member : made ∈ session.attempts)
    : ∃ first, made.MadeIn source scope first := by
  obtain ⟨_, _, trace, _, _⟩ := parseIn_eq_ok_iff.mp parsed
  have run := run_of_parseIn wellFormed inside parsed
  obtain ⟨kept, size⟩ := trace.wellFormed_before wellFormed member
  obtain ⟨stop, first, _, more, stands⟩ := run.exists_standsAt (tokenize_sorted source.toList)
    (fun _ among => start_lt_of_mem_tokenize among) (Cursor.standsAt_ofTokens file _ _) member
  exact ⟨first, trace.attempt_of_mem member, kept, size ▸ inside, stands, stop, more⟩

section

variable {scope : Nat} {tree after : ScopeTree} {cursor final : Cursor} {attempts : List Attempt}
  {tokens : List Token} {first : Nat}

/-- By induction over the attempts: each one starts at or behind where the one before it has moved
to.
-/
theorem Trace.inOrder (trace : Trace scope tree cursor attempts after final)
    (wellFormed : tree.WellFormed) (within : scope < tree.size)
    (sorted : tokens.Pairwise fun left right => left.start < right.start)
    (bounded : ∀ token ∈ tokens, token.start < cursor.stop)
    (stands : cursor.StandsAt tokens first)
    : InOrder attempts ∧ ∀ made ∈ attempts, cursor.current.start ≤ made.start.current.start := by
  induction trace generalizing first with
  | refl => exact ⟨⟨by simp, by simp, .nil⟩, by simp⟩
  | @step tree cursor made rest after final more result _ ih =>
      have inside := stands.lt_length more
      obtain ⟨stop, _, _, between⟩ :=
        error_between wellFormed within result sorted bounded stands inside
      obtain ⟨_, next, further, resumed⟩ :=
        (from_of_attempt wellFormed within result).exists_next sorted bounded stands inside
      obtain ⟨start, _, _, installed, _⟩ := attempt_eq_ok_iff.mp result
      obtain ⟨kept, size⟩ := install_wellFormed wellFormed installed
      obtain ⟨later, behind⟩ := ih kept (size ▸ within) (stop ▸ bounded) resumed
      have forward := current_start_lt sorted bounded stop stands resumed further
      rw [← start] at forward between ⊢
      refine ⟨⟨?_, ?_, ?_⟩, ?_⟩
      · exact List.forall_mem_cons.mpr ⟨forward, later.forward⟩
      · exact List.forall_mem_cons.mpr ⟨between, later.between⟩
      · exact List.pairwise_cons.mpr ⟨behind, later.apart⟩
      · refine List.forall_mem_cons.mpr ⟨Nat.le_refl _, ?_⟩
        exact fun other member => (Nat.le_of_lt forward).trans (behind other member)

end

theorem inOrder_of_parseIn {tree : ScopeTree} (wellFormed : tree.WellFormed) {scope : Nat}
    (inside : scope < tree.size) {file : Option String} {source : String} {session : Session}
    (parsed : parseIn tree scope file source = .ok session)
    : InOrder session.attempts := by
  obtain ⟨_, _, trace, _, _⟩ := parseIn_eq_ok_iff.mp parsed
  exact (trace.inOrder wellFormed inside (tokenize_sorted source.toList)
    (fun _ member => start_lt_of_mem_tokenize member) (Cursor.standsAt_ofTokens file _ _)).1

-----------------------------------------------------------------------------------------
-- Attempts in order
-----------------------------------------------------------------------------------------

namespace InOrder

variable {made left right : Attempt} {attempts middle rest : List Attempt} {position : Location}

theorem sublist (order : InOrder attempts) (some : rest.Sublist attempts) : InOrder rest where
  forward other member := order.forward other (some.subset member)
  between other member := order.between other (some.subset member)
  apart := order.apart.sublist some

theorem tail (order : InOrder (made :: rest)) : InOrder rest :=
  order.sublist (List.sublist_cons_self _ _)

/-- No error lies before the attempts. -/
theorem countP_eq_zero (order : InOrder attempts)
    (before : ∀ made ∈ attempts, position < made.start.current.start)
    : (attempts.filterMap Attempt.error?).countP (·.span.start = position) = 0 := by
  rw [List.countP_eq_zero]
  intro error member
  obtain ⟨made, among, failed⟩ := List.mem_filterMap.mp member
  have lower := (order.between made among error failed).1
  have less := before made among
  simp only [decide_eq_true_eq, Location] at *
  omega

/-- Of the attempts that start at a position or behind it only the first can fail there. -/
theorem countP_le_one (order : InOrder attempts)
    (before : ∀ made ∈ attempts, position ≤ made.start.current.start)
    : (attempts.filterMap Attempt.error?).countP (·.span.start = position) ≤ 1 := by
  cases attempts with
  | nil => simp
  | cons made rest =>
      have behind : ∀ other ∈ rest, position < other.start.current.start := by
        intro other member
        have here := before made List.mem_cons_self
        have forward := order.forward made List.mem_cons_self
        have apart := List.rel_of_pairwise_cons order.apart member
        exact Nat.lt_of_le_of_lt here (Nat.lt_of_lt_of_le forward apart)
      have none := order.tail.countP_eq_zero behind
      cases failed : made.error? with
      | none => simp [List.filterMap_cons_none failed, none]
      | some error =>
          rw [List.filterMap_cons_some failed, List.countP_cons, none]
          split <;> omega

/-- An error at a position leaves only one more that can be there: the next attempt starts at that
position or behind it.
-/
theorem countP_le_two (order : InOrder attempts)
    : (attempts.filterMap Attempt.error?).countP (·.span.start = position) ≤ 2 := by
  induction attempts with
  | nil => simp
  | cons made rest ih =>
      have later := ih order.tail
      cases failed : made.error? with
      | none => rwa [List.filterMap_cons_none failed]
      | some error =>
          rw [List.filterMap_cons_some failed, List.countP_cons]
          by_cases same : error.span.start = position
          · have behind : ∀ other ∈ rest, position ≤ other.start.current.start := by
              intro other member
              have upper := (order.between made List.mem_cons_self error failed).2
              rw [same] at upper
              exact upper.trans (List.rel_of_pairwise_cons order.apart member)
            have one := order.tail.countP_le_one behind
            simp only [same, decide_true, if_true]
            omega
          · simpa [same] using later

/-- Two attempts that fail at one position follow each other, and the second starts there. -/
theorem adjacent (order : InOrder (left :: (middle ++ right :: rest))) {one two : ParseError}
    (first : left.error? = some one) (second : right.error? = some two)
    (same : one.span.start = two.span.start)
    : middle = []
      ∧ left.next.current.start = one.span.start
      ∧ right.start.current.start = one.span.start := by
  have upper := (order.between left List.mem_cons_self one first).2
  have lower := (order.between right (by simp) two second).1
  have apart : left.next.current.start ≤ right.start.current.start :=
    List.rel_of_pairwise_cons order.apart (by simp)
  refine ⟨?_, ?_, ?_⟩
  · cases middle with
    | nil => rfl
    | cons other middle =>
        have enters : left.next.current.start ≤ other.start.current.start :=
          List.rel_of_pairwise_cons order.apart (by simp)
        have forward := order.forward other (by simp)
        have leaves : other.next.current.start ≤ right.start.current.start :=
          List.rel_of_pairwise_cons order.tail.apart (by simp)
        simp only [Location] at *
        omega
  · simp only [Location] at *
    omega
  · simp only [Location] at *
    omega

end InOrder

-----------------------------------------------------------------------------------------
-- The token that a failed attempt has refused
-----------------------------------------------------------------------------------------

section

variable {made : Attempt} {source : String} {scope first : Nat} {error : ParseError}

/-- Where an attempt goes on at the token that it has refused, it has not read that token. -/
theorem Attempt.FailsInRange.not_behind {tokens : List Token} {reached next : Nat}
    (range : made.FailsInRange tokens first reached next error) {middle : Cursor}
    (here : middle.StandsAt tokens next) (refused : Refused middle error made.outcome.stopped)
    : made.outcome.stopped.StandsAt tokens next := by
  rcases refused.stopped with before | behind
  · rw [before]
    exact here.report error
  · cases ahead : middle.rest with
    | nil =>
        have stays : middle.advance = middle := by simp [Cursor.advance, ahead]
        rw [behind, stays]
        exact here.report error
    | cons token rest =>
        have stops := (here.reads (.single ahead)).report error
        rw [← behind] at stops
        have index := range.stopped.index_eq stops
        have least := (Nat.le_max_left _ _).trans range.least.1.1
        simp only [List.length_singleton] at index
        omega

theorem Attempt.MadeIn.exists_refusesAt (attempted : made.MadeIn source scope first)
    (failed : made.error? = some error)
    : ∃ blamed token, first ≤ blamed ∧ made.RefusesAt source first blamed error token := by
  have sorted := tokenize_sorted source.toList
  have bounded : ∀ token ∈ tokenize source.toList, token.start < byteLength source.toList :=
    fun _ member => start_lt_of_mem_tokenize member
  have decides : Decides (made.before.isDeclared scope) (made.before.names scope) :=
    ScopeTree.isDeclared_cases attempted.wellFormed attempted.within
  have result := Attempt.error?_eq_some_iff.mp failed
  obtain ⟨_, _, outcome, _, _⟩ := attempt_eq_ok_iff.mp attempted.result
  obtain ⟨seen, _, read, middle, place, reads, ran, ready, none, refused⟩ :=
    exists_blamed decides outcome result
  obtain ⟨stop, next, resumed, range⟩ :=
    (from_of_attempt attempted.wellFormed attempted.within attempted.result).range sorted
      (attempted.stop ▸ bounded) attempted.stands attempted.more
  have stands := attempted.stands.reads reads
  have found := stands.getElem?_eq_current
  rw [reads.frame.1, attempted.stop] at found
  -- The next attempt starts at the refused token only if that token has the same index.
  have same : made.next.current.start = middle.current.start → next = first + read.length := by
    have there := resumed.getElem?_eq_current
    rw [stop, attempted.stop] at there
    exact index_eq_of_start_eq sorted bounded there found
  rcases range with ⟨_, range⟩ | ⟨reached, _, range⟩
  · simp [range.result] at result
  obtain rfl := Except.error.inj (result.symm.trans range.result)
  refine ⟨first + read.length, middle.current, Nat.le_add_right _ _, found, refused.blames,
    ?_, ?_, ?_⟩
  · intro opening
    obtain rfl : read = [] := List.length_eq_zero_iff.mp (by omega)
    obtain rfl := Option.some.inj ran
    constructor <;> intro kind <;> simp [Place.next, Place.awaitKind, kind] at none
  · intro position
    obtain rfl := same position
    exact range.not_behind stands refused
  · intro position
    obtain rfl := same position
    obtain ⟨⟨further, boundary⟩, _⟩ := range.least
    rcases boundary with finished | ⟨token, before, mark⟩ | ⟨token, here, keyword⟩
    · exact .inl finished
    · have last := attempted.stands.getElem?_read reads (by omega) (by omega) before
      exact absurd mark (Place.not_boundary_of_run ran ready last).1
    · rw [stands.current here]
      exact .inr ((isKeyword_iff token.kind).mpr keyword)

end

/-- A keyword is not quoted as a number or as a name. -/
theorem Blames.eq_unexpected {error : ParseError} {token : Token} (blames : Blames error token)
    (keyword : token.kind.isKeyword = true)
    : ∃ expected, error = .unexpectedToken token.span expected token.kind token.text := by
  cases blames with
  | unexpected => exact ⟨_, rfl⟩
  | number kind | redeclared kind | undeclared kind =>
      rw [kind] at keyword
      cases keyword

/-- An attempt that starts where the one before has failed, and fails there too, starts at a
keyword that is neither `let` nor `type`.
-/
theorem Attempt.MadeIn.exists_meetAt {left right : Attempt} {source : String}
    {scope first second : Nat} (before : left.MadeIn source scope first)
    (behind : right.MadeIn source scope second) {one two : ParseError}
    (failed : left.error? = some one) (alsoFailed : right.error? = some two)
    (same : one.span.start = two.span.start)
    (moved : left.next.current.start = one.span.start)
    (starts : right.start.current.start = one.span.start)
    : ∃ keyword, left.MeetAt right (tokenize source.toList) second keyword := by
  have sorted := tokenize_sorted source.toList
  have bounded : ∀ token ∈ tokenize source.toList, token.start < byteLength source.toList :=
    fun _ member => start_lt_of_mem_tokenize member
  obtain ⟨blamed, keyword, _, refuses⟩ := before.exists_refusesAt failed
  obtain ⟨alsoBlamed, again, _, alsoRefuses⟩ := behind.exists_refusesAt alsoFailed
  have position := refuses.blames.start_eq
  have alsoPosition := alsoRefuses.blames.start_eq
  have current := behind.stands.getElem?_eq_current
  rw [behind.stop] at current
  -- Both have refused the token at which the second one starts.
  obtain rfl : blamed = second := index_eq_of_start_eq sorted bounded refuses.found current
    (position.symm.trans starts.symm)
  obtain rfl : alsoBlamed = blamed := index_eq_of_start_eq sorted bounded alsoRefuses.found
    current (alsoPosition.symm.trans (same.symm.trans starts.symm))
  obtain rfl := Option.some.inj (refuses.found.symm.trans alsoRefuses.found)
  have boundary := refuses.boundary (moved.trans position)
  have isKeyword := boundary.resolve_left (Nat.ne_of_lt behind.more)
  obtain ⟨notLet, notType⟩ := alsoRefuses.opening rfl
  obtain ⟨expected, error⟩ := refuses.blames.eq_unexpected isKeyword
  obtain ⟨_, other⟩ := alsoRefuses.blames.eq_unexpected isKeyword
  refine ⟨keyword, ?_, ?_, refuses.stopped (moved.trans position), ⟨expected, error ▸ failed⟩,
    behind.stands, two, alsoFailed, ?_⟩
  · rw [← refuses.found, List.getElem?_append_left behind.more]
  · have keywords := (isKeyword_iff keyword.kind).mp isKeyword
    simpa [notLet, notType] using keywords
  · rw [other]
    rfl

/-- Two neighbours among the errors are those of two attempts, with only such attempts between
them as have read a statement.
-/
theorem exists_attempts_of_errors {attempts : List Attempt} {index : Nat} {one two : ParseError}
    (first : (attempts.filterMap Attempt.error?)[index]? = some one)
    (second : (attempts.filterMap Attempt.error?)[index + 1]? = some two)
    : ∃ before left middle right after,
        attempts = before ++ left :: (middle ++ right :: after)
        ∧ (before.filterMap Attempt.error?).length = index
        ∧ left.error? = some one
        ∧ right.error? = some two := by
  obtain ⟨inside, rfl⟩ := List.getElem?_eq_some_iff.mp first
  obtain ⟨alsoInside, rfl⟩ := List.getElem?_eq_some_iff.mp second
  have split := (List.take_append_drop index (attempts.filterMap Attempt.error?)).symm
  rw [List.drop_eq_getElem_cons inside, List.drop_eq_getElem_cons alsoInside] at split
  obtain ⟨before, later, rfl, taken, remaining⟩ := List.filterMap_eq_append_iff.mp split
  obtain ⟨skipped, left, rest, rfl, none, failed, following⟩ :=
    List.filterMap_eq_cons_iff.mp remaining
  obtain ⟨middle, right, after, rfl, _, alsoFailed, _⟩ := List.filterMap_eq_cons_iff.mp following
  refine ⟨before ++ skipped, left, middle, right, after, by simp, ?_, failed, alsoFailed⟩
  rw [List.filterMap_append, taken, List.filterMap_eq_nil_iff.mpr none, List.append_nil,
    List.length_take]
  omega

/-- The errors of a parse are those of its failed attempts, in the order of their positions. Two
neighbours share a position only where the attempt of the first has stopped before `function` or
`return` and the very next attempt has failed at that keyword; no three errors share one.
-/
theorem parseIn_errors_in_order {tree : ScopeTree} (wellFormed : tree.WellFormed) {scope : Nat}
    (inside : scope < tree.size) (file : Option String) (source : String)
    : ∃ session, parseIn tree scope file source = .ok session
        ∧ session.errors = session.attempts.filterMap Attempt.error?
        ∧ session.errors.Pairwise (fun left right => left.span.start ≤ right.span.start)
        ∧ (∀ index one two,
            session.errors[index]? = some one → session.errors[index + 1]? = some two
            → one.span.start = two.span.start
            → ∃ before left right after,
                session.attempts = before ++ left :: right :: after
                ∧ (before.filterMap Attempt.error?).length = index
                ∧ left.error? = some one
                ∧ right.error? = some two
                ∧ ∃ place keyword,
                    left.MeetAt right (tokenize source.toList) place keyword)
        ∧ ∀ position, session.errors.countP (·.span.start = position) ≤ 2 := by
  obtain ⟨session, parsed, _, run⟩ := exists_session wellFormed inside file source
  have errors := run.session_reports.1
  have order := inOrder_of_parseIn wellFormed inside parsed
  refine ⟨session, parsed, errors, errors_sorted_of_parseIn wellFormed inside parsed, ?_, ?_⟩
  · intro index one two first second same
    rw [errors] at first second
    obtain ⟨before, left, middle, right, after, split, length, failed, alsoFailed⟩ :=
      exists_attempts_of_errors first second
    have later : InOrder (left :: (middle ++ right :: after)) :=
      order.sublist (split ▸ List.sublist_append_right _ _)
    obtain ⟨rfl, moved, starts⟩ := later.adjacent failed alsoFailed same
    have member : left ∈ session.attempts := by simp [split]
    have alsoMember : right ∈ session.attempts := by simp [split]
    obtain ⟨_, attempted⟩ := exists_madeIn wellFormed inside parsed member
    obtain ⟨place, alsoAttempted⟩ := exists_madeIn wellFormed inside parsed alsoMember
    obtain ⟨keyword, meet⟩ :=
      attempted.exists_meetAt alsoAttempted failed alsoFailed same moved starts
    exact ⟨before, left, right, after, split, length, failed, alsoFailed, place, keyword, meet⟩
  · intro position
    rw [errors]
    exact order.countP_le_two

theorem parseIn_errors_in_order_inner
    : let tree := (ScopeTree.new.push ScopeTree.root).1
      let source := "let a = function return; let b = 1 return let c = ; function"
      (tree.WellFormed ∧ 1 < tree.size)
      ∧ ∃ session, parseIn tree 1 none source = .ok session
        ∧ session.errors = session.attempts.filterMap Attempt.error?
        ∧ session.errors.Pairwise (fun left right => left.span.start ≤ right.span.start)
        ∧ (∀ index one two,
            session.errors[index]? = some one → session.errors[index + 1]? = some two
            → one.span.start = two.span.start
            → ∃ before left right after,
                session.attempts = before ++ left :: right :: after
                ∧ (before.filterMap Attempt.error?).length = index
                ∧ left.error? = some one
                ∧ right.error? = some two
                ∧ ∃ place keyword,
                    left.MeetAt right (tokenize source.toList) place keyword)
        ∧ ∀ position, session.errors.countP (·.span.start = position) ≤ 2 :=
  ⟨by decide, parseIn_errors_in_order (by decide) (by decide) none _⟩

end LetLang.Parse

import LetLang.Proofs.Parse.Places
import LetLang.Proofs.Parse.References
import LetLang.Proofs.Parse.Traces

/-! Errors come as early as possible. The tokens that an attempt had read before the one that its
error is about could still have become a statement, and together with that token they could not.
-/

namespace LetLang

open LetLang.Token

/-- A token that does not stand in any text. -/
def Token.bare (kind : Kind) (text : String) : Token :=
  ⟨kind, Span.empty 0, text⟩

/-- A text that consists of the token and nothing else gives the token back. -/
def Token.IsSpelled (token : Token) : Prop :=
  spellings token.text.toList = [token.spelling]

theorem Token.isSpelled_word {word : String} (isWord : IsWord word)
    : (bare ((Kind.ofWord? word).getD .identifier) word).IsSpelled := by
  have breaks : Breaks [] := by simp [Breaks]
  have whole := spellings_word isWord breaks
  rw [List.append_nil, spellings_nil] at whole
  exact whole

namespace Grammar

/-- Tokens that start a sentence. More tokens, each spelled as in a text or a visible name, are
missing from it.
-/
def Viable (names : Set String) (tokens : List Token) : Prop :=
  ∃ missing, missing ≠ []
    ∧ Sentence names (tokens ++ missing)
    ∧ ∀ token ∈ missing, token.IsSpelled ∨ token.kind = .identifier ∧ token.text ∈ names

/-- No sentence starts with tokens that are spelled like these. -/
def Hopeless (names : Set String) (tokens : List Token) : Prop :=
  ∀ sentence, Sentence names sentence → ¬tokens.map spelling <+: sentence.map spelling

namespace Place

/-- A way to end the statement from each place, with a name that can be declared and one that
can be used.
-/
def completion (fresh known : String) (place : Place) : List Token :=
  let ending := [bare .semicolon ";"]
  let initializer := bare .equals "=" :: bare .boolean "true" :: ending
  let original := bare .identifier fresh :: ending
  match place with
  | start | value => bare .boolean "true" :: ending
  | afterLet => bare .identifier fresh :: initializer
  | afterColon => bare .identifier known :: initializer
  | afterName | afterTypeName => initializer
  | afterTarget | complete => ending
  | afterType => bare .identifier fresh :: bare .equals "=" :: original
  | afterAlias => bare .equals "=" :: original
  | aliased => original
  | closed => []

variable {fresh known : String}

theorem run_completion {seen : String → Bool} (free : seen fresh = false)
    (visible : seen known = true) {place : Place} (ready : place ≠ closed)
    : place.run seen (place.completion fresh known) = some closed := by
  cases place with
  | closed => exact absurd rfl ready
  | _ => simp [completion, run, next, awaitKind, awaitName, awaitValue, bare, free, visible]

theorem completion_ne_nil {place : Place} (ready : place ≠ closed)
    : place.completion fresh known ≠ [] := by
  cases place <;> simp_all [completion]

/-- All tokens of a completion can be written down, but for the name that is used. -/
theorem isSpelled_of_mem_completion (name : IsName fresh) {place : Place} {token : Token}
    (member : token ∈ place.completion fresh known)
    : token.IsSpelled ∨ token = bare .identifier known := by
  have among : place.completion fresh known
      ⊆ [bare .semicolon ";", bare .equals "=", bare .boolean "true", bare .identifier fresh,
        bare .identifier known] := by
    cases place <;> simp [completion]
  have which := among member
  simp only [List.mem_cons, List.not_mem_nil, or_false] at which
  rcases which with rfl | rfl | rfl | rfl | same
  · exact .inl ((spellings_semicolon []).trans (by rw [spellings_nil]; rfl))
  · exact .inl ((spellings_equals []).trans (by rw [spellings_nil]; rfl))
  · exact .inl (isSpelled_word (isWord_of_all 't' ['r', 'u', 'e'] rfl rfl rfl))
  · have identifier := isSpelled_word name.word
    rw [name.free] at identifier
    exact .inl identifier
  · exact .inr same

end Place

end Grammar

namespace Parse

open LetLang.Grammar LetLang.Text

-----------------------------------------------------------------------------------------
-- What can still become a sentence
-----------------------------------------------------------------------------------------

section

variable {seen : String → Bool} {names : Set String} {read : List Token} {reached : Place}

theorem viable_of_run (tells : ∀ name, seen name = true ↔ name ∈ names) (finite : names.Finite)
    (visible : names.Nonempty) (ran : Place.start.run seen read = some reached)
    (ready : reached ≠ .closed)
    : Viable names read := by
  obtain ⟨known, member⟩ := visible
  obtain ⟨fresh, name, hidden⟩ := exists_isName_not_mem finite
  have free : seen fresh = false := Bool.eq_false_iff.mpr (mt (tells fresh).mp hidden)
  refine ⟨reached.completion fresh known, Place.completion_ne_nil ready,
    sentence_of_run tells ?_, ?_⟩
  · rw [Place.run_append, ran]
    exact Place.run_completion free ((tells known).mpr member) ready
  · intro token missing
    rcases Place.isSpelled_of_mem_completion name missing with spelled | rfl
    · exact .inl spelled
    · exact .inr ⟨rfl, member⟩

theorem hopeless_of_run (tells : ∀ name, seen name = true ↔ name ∈ names)
    (ran : Place.start.run seen read = some reached) {token : Token}
    (none : reached.next seen token = none)
    : Hopeless names (read ++ [token]) := by
  intro sentence valid starts
  obtain ⟨more, spelled⟩ := starts
  obtain ⟨left, right, rfl, same, _⟩ := List.map_eq_append_iff.mp spelled.symm
  have closed := run_of_sentence tells valid
  rw [Place.run_append, Place.run_eq_of_spelling seen same,
    Place.run_of_next_eq_none ran none []] at closed
  cases closed

end

-----------------------------------------------------------------------------------------
-- The token that an error is about
-----------------------------------------------------------------------------------------

/-- An error is about the first token with which the tokens from `first` on do not start a
sentence, or about the end of file.
-/
structure Earliest (error : ParseError) (names : Set String) (tokens : List Token)
    (stop : Location) (first blamed : Nat) : Prop where
  forward : first ≤ blamed
  inside : blamed ≤ tokens.length
  span
    : ∀ index token,
        (tokens ++ [Token.endOfFile stop])[index]? = some token
        → (error.span = token.span ↔ index = blamed)
  viable : names.Nonempty → Viable names (tokens.extract first blamed)
  hopeless : blamed < tokens.length → Hopeless names (tokens.extract first (blamed + 1))

/-- The span of a name is that of its token. -/
theorem Blames.span_eq {error : ParseError} {token : Token} (blames : Blames error token)
    (length : token.span.length = byteLength token.text.toList)
    : error.span = token.span := by
  have name : nameSpan token.name = token.span := by
    rw [nameSpan, Token.name, ← length]
    rfl
  cases blames with
  | unexpected | number => rfl
  | redeclared | undeclared => exact name

/-- The tokens of a text and the end of file are as long as their texts. -/
theorem span_length_of_getElem? {text : List Char} {index : Nat} {token : Token}
    (here : (tokenize text ++ [Token.endOfFile (byteLength text)])[index]? = some token)
    : token.span.length = byteLength token.text.toList := by
  rcases List.mem_append.mp (List.mem_of_getElem? here) with member | last
  · exact span_length_of_mem_scanAll member
  · rw [List.mem_singleton.mp last]
    rfl

/-- A failed attempt has read tokens up to a place at which the token that it has refused cannot
come next.
-/
theorem exists_blamed {visible : Visibility} {names : Set String} (decides : Decides visible names)
    {cursor : Cursor} {outcome : Outcome} (result : statement visible cursor = .ok outcome)
    {error : ParseError} (failed : outcome.result = .error error)
    : ∃ seen : String → Bool,
        (∀ name, seen name = true ↔ name ∈ names)
        ∧ ∃ read middle reached,
            cursor.Reads read middle
            ∧ Place.start.run seen read = some reached
            ∧ reached ≠ .closed
            ∧ reached.next seen middle.current = none
            ∧ Refused middle error outcome.stopped := by
  classical
  let seen : String → Bool := fun name => decide (name ∈ names)
  have answers : ∀ name, visible name = .ok (seen name) := by
    intro name
    rcases decides name with ⟨member, answer⟩ | ⟨absent, answer⟩
    · simp [seen, member, answer]
    · simp [seen, absent, answer]
  have tracked := tracked_statement answers result
  rw [Outcome.step, failed] at tracked
  exact ⟨seen, fun name => decide_eq_true_iff, tracked⟩

/-- A failed attempt at a statement is about the earliest token. -/
theorem exists_earliest {visible : Visibility} {names : Set String} (decides : Decides visible names)
    (finite : names.Finite) {cursor : Cursor} {outcome : Outcome}
    (result : statement visible cursor = .ok outcome) {error : ParseError}
    (failed : outcome.result = .error error) {text : List Char} {first : Nat}
    (stands : cursor.StandsAt (tokenize text) first) (stop : cursor.stop = byteLength text)
    : ∃ blamed, Earliest error names (tokenize text) (byteLength text) first blamed := by
  obtain ⟨seen, tells, read, middle, reached, reads, ran, ready, none, refused⟩ :=
    exists_blamed decides result failed
  have stops := stands.reads reads
  have current := stops.getElem?_eq_current
  rw [reads.frame.1, stop] at current
  have ahead : (tokenize text).drop first = read ++ middle.rest := by
    rw [← stands.rest, reads.rest_eq]
  refine ⟨first + read.length, Nat.le_add_right _ _, stops.inside, ?_, ?_, ?_⟩
  · intro index token here
    have span := refused.blames.span_eq (span_length_of_getElem? current)
    rw [span]
    constructor
    · intro same
      exact index_eq_of_start_eq (tokenize_sorted text)
        (fun _ member => start_lt_of_mem_tokenize member) here current
        (congrArg Span.start same.symm)
    · rintro rfl
      rw [Option.some.inj (here.symm.trans current)]
  · intro some
    rw [List.extract_eq_take_drop, ahead, Nat.add_sub_cancel_left, List.take_left]
    exact viable_of_run tells finite some ran ready
  · intro more
    have some : middle.rest ≠ [] := mt stops.rest_eq_nil_iff.mp (Nat.ne_of_lt more)
    obtain ⟨token, later, rest⟩ := List.exists_cons_of_ne_nil some
    rw [List.extract_eq_take_drop, ahead, rest, Nat.add_assoc, Nat.add_sub_cancel_left,
      List.take_length_add_append]
    rw [Cursor.current_eq_of_rest rest] at none
    exact hopeless_of_run tells ran none

/-- Every error of a parse is about the earliest possible token: what its attempt has read before
could still have become a statement where the attempt was made, and with that token it could not.
-/
theorem parseIn_errors_earliest {tree : ScopeTree} (wellFormed : tree.WellFormed) {scope : Nat}
    (inside : scope < tree.size) (file : Option String) (source : String)
    : let tokens := tokenize source.toList
      ∃ session, parseIn tree scope file source = .ok session
        ∧ session.errors = session.attempts.filterMap Attempt.error?
        ∧ ∀ made ∈ session.attempts, ∀ error, made.error? = some error
            → ∃ first blamed, made.start.StandsAt tokens first
                ∧ Earliest error (made.before.names scope) tokens (byteLength source.toList)
                    first blamed := by
  obtain ⟨session, parsed, _, run⟩ := exists_session wellFormed inside file source
  obtain ⟨_, _, trace, _, _⟩ := parseIn_eq_ok_iff.mp parsed
  refine ⟨session, parsed, run.session_reports.1, ?_⟩
  intro made member error failed
  obtain ⟨_, _, result, _, _⟩ := attempt_eq_ok_iff.mp (trace.attempt_of_mem member)
  obtain ⟨kept, size⟩ := trace.wellFormed_before wellFormed member
  obtain ⟨stop, first, _, _, stands⟩ := run.exists_standsAt (tokenize_sorted source.toList)
    (fun token among => start_lt_of_mem_tokenize among) (Cursor.standsAt_ofTokens file _ _) member
  have ended : made.outcome.result = .error error := by
    unfold Attempt.error? at failed
    split at failed
    · cases failed
    · next same => rw [same, Option.some.inj failed]
  obtain ⟨blamed, earliest⟩ := exists_earliest
    (ScopeTree.isDeclared_cases kept (size ▸ inside)) (made.before.names_finite scope) result
    ended stands stop
  exact ⟨first, blamed, stands, earliest⟩

theorem parseIn_errors_earliest_inner
    : let tree := (ScopeTree.new.push ScopeTree.root).1
      let source := "let a = 1; let b: = a; a = c; let a = 2; type t = 3; a a; let c = a = ; let"
      let tokens := tokenize source.toList
      (tree.WellFormed ∧ 1 < tree.size)
      ∧ ∃ session, parseIn tree 1 none source = .ok session
        ∧ session.errors = session.attempts.filterMap Attempt.error?
        ∧ ∀ made ∈ session.attempts, ∀ error, made.error? = some error
            → ∃ first blamed, made.start.StandsAt tokens first
                ∧ Earliest error (made.before.names 1) tokens (byteLength source.toList)
                    first blamed :=
  ⟨by decide, parseIn_errors_earliest (by decide) (by decide) none _⟩

end Parse

end LetLang

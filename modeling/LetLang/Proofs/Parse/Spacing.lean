import LetLang.Proofs.Parse.Lockstep
import LetLang.Proofs.Print.Derivation
import LetLang.Proofs.Scope.Lookup
import LetLang.Proofs.Token.Spelling

/-! Texts that differ in their blanks only. Blanks decide where tokens stand, and the parser looks
at places for one purpose: whether two of them are the same. Tokens that stand apart in one text
stand apart in the other, so both parses take the same steps.
-/

namespace LetLang

open LetLang.Token LetLang.Text

/-- An error without its span. -/
def ParseError.unplaced : ParseError → ParseError
  | unexpectedToken _ expected found text => unexpectedToken (.empty 0) expected found text
  | invalidNumber _ text => invalidNumber (.empty 0) text
  | redeclared _ name => redeclared (.empty 0) name
  | undeclared _ name isType => undeclared (.empty 0) name isType

/-- A diagnostic without its span. -/
def Diagnostic.unplaced (diagnostic : Diagnostic) : Diagnostic :=
  { diagnostic with span := none }

-----------------------------------------------------------------------------------------
-- What is moved is the same without its place
-----------------------------------------------------------------------------------------

section

variable (move : Location → Location)

@[simp]
theorem Atom.unplaced_relocate (leaf : Atom) : (leaf.relocate move).unplaced = leaf.unplaced := by
  cases leaf <;> rfl

@[simp]
theorem Expr.unplaced_relocate (value : Expr)
    : (value.relocate move).unplaced = value.unplaced := by
  induction value with
  | atom leaf => rw [relocate, unplaced, Atom.unplaced_relocate, unplaced]
  | assignment link value ih =>
      rw [relocate, unplaced, ih, unplaced]
      rfl

@[simp]
theorem Declaration.unplaced_relocate (declared : Declaration)
    : (declared.relocate move).unplaced = declared.unplaced := by
  cases declared with
  | binding location name ascription initializer =>
      rw [relocate, unplaced, Expr.unplaced_relocate, unplaced, Option.map_map]
      rfl
  | typeAlias => rfl

@[simp]
theorem Statement.unplaced_relocate (statement : Statement)
    : (statement.relocate move).unplaced = statement.unplaced := by
  cases statement with
  | expression location value => rw [relocate, unplaced, Expr.unplaced_relocate, unplaced]
  | declaration declared => rw [relocate, unplaced, Declaration.unplaced_relocate, unplaced]

@[simp]
theorem ParseError.unplaced_relocate (error : ParseError)
    : (error.relocate move).unplaced = error.unplaced := by
  cases error <;> rfl

/-- The diagnostic of an error says the same wherever the error is. -/
theorem Parse.Reports.unplaced_diagnose (file : Option String) {left right : ParseError}
    (same : right.unplaced = left.unplaced)
    : (diagnose file right).unplaced = (diagnose file left).unplaced := by
  have entries : ∀ error : ParseError, (diagnose file error).unplaced
      = (diagnose file error.unplaced).unplaced := by
    intro error
    cases error with
    | unexpectedToken _ expected => cases file <;> cases expected <;> rfl
    | invalidNumber | redeclared | undeclared => cases file <;> rfl
  rw [entries right, entries left, same]

end

-----------------------------------------------------------------------------------------
-- From the places of one text to those of another
-----------------------------------------------------------------------------------------

/-- Where tokens stand and where the source ends. -/
def Token.landmarks (text : List Char) : List Location :=
  (tokenize text).map start ++ [byteLength text]

theorem Token.landmarks_nodup (text : List Char) : (landmarks text).Nodup := by
  refine List.pairwise_append.mpr ⟨?_, List.pairwise_singleton _ _, ?_⟩
  · exact List.pairwise_map.mpr ((tokenize_sorted text).imp Nat.ne_of_lt)
  · intro place member stop last
    obtain ⟨token, among, rfl⟩ := List.mem_map.mp member
    rw [List.mem_singleton.mp last]
    exact Nat.ne_of_lt (start_lt_of_mem_tokenize among)

/-- Distinct places can be sent to any others, one by one. -/
theorem exists_move {places others : List Location} (distinct : places.Nodup)
    (length : places.length = others.length)
    : ∃ move : Location → Location, places.map move = others := by
  induction places generalizing others with
  | nil => exact ⟨id, (List.length_eq_zero_iff.mp length.symm).symm⟩
  | cons place places ih =>
      obtain ⟨other, others, rfl⟩ := List.exists_cons_of_length_eq_add_one length.symm
      obtain ⟨absent, rest⟩ := List.nodup_cons.mp distinct
      obtain ⟨move, moved⟩ := ih rest (Nat.succ.inj length)
      refine ⟨Function.update move place other, ?_⟩
      rw [List.map_cons, Function.update_self, ← moved]
      congr 1
      apply List.map_congr_left
      intro further member
      have different : further ≠ place := fun same => absent (same ▸ member)
      exact Function.update_of_ne different _ _

/-- Tokens that are spelled alike differ by where they start. -/
theorem Token.eq_map_relocate {move : Location → Location} {left right : List Token}
    (spelled : right.map spelling = left.map spelling)
    (starts : (left.map start).map move = right.map start)
    (lengths : ∀ token ∈ left ++ right, token.span.length = byteLength token.text.toList)
    : right = left.map (Token.relocate move) := by
  induction left generalizing right with
  | nil => exact List.map_eq_nil_iff.mp spelled
  | cons token left ih =>
      obtain ⟨other, right, rfl, head, tail⟩ := List.map_eq_cons_iff.mp spelled
      obtain ⟨kind, text⟩ := Prod.mk.inj head
      obtain ⟨first, later⟩ := List.cons.inj starts
      have length : other.span.length = token.span.length := by
        rw [lengths other (by simp), lengths token (by simp), text]
      have same : other = token.relocate move := by
        rcases other with ⟨otherKind, ⟨otherStart, otherLength⟩, otherText⟩
        simp only [Token.relocate, Span.relocate, Token.mk.injEq, Span.mk.injEq]
        exact ⟨kind, ⟨first.symm, length⟩, text⟩
      rw [List.map_cons, ← same, ← ih tail later fun token member => lengths token (by grind)]

/-- Where two texts have the same tokens, each place of the one has its own place in the other.
-/
theorem Token.exists_relocation {first second : List Char}
    (same : spellings first = spellings second)
    : ∃ move, tokenize second = (tokenize first).map (Token.relocate move)
        ∧ byteLength second = move (byteLength first)
        ∧ Set.InjOn move {place | place ∈ landmarks first} := by
  have count : (tokenize first).length = (tokenize second).length := by
    simpa [spellings] using congrArg List.length same
  obtain ⟨move, moved⟩ := @exists_move _ (landmarks second) (landmarks_nodup first)
    (by simp [landmarks, count])
  have apart : Set.InjOn move {place | place ∈ landmarks first} := by
    intro place member other also
    exact List.inj_on_of_nodup_map (moved ▸ landmarks_nodup second) member also
  rw [landmarks, landmarks, List.map_append] at moved
  obtain ⟨starts, stop⟩ := List.append_inj moved (by simp [count])
  refine ⟨move, eq_map_relocate same.symm starts ?_, ?_, apart⟩
  · intro token member
    rcases List.mem_append.mp member with member | member
    · exact span_length_of_mem_scanAll member
    · exact span_length_of_mem_scanAll member
  · exact (List.singleton_inj.mp stop).symm

-----------------------------------------------------------------------------------------
-- Declarations without their places
-----------------------------------------------------------------------------------------

namespace ScopeTree

variable {tree other : ScopeTree}

theorem unplaced_own?_relocateSince (move : Location → Location) (base : ScopeTree)
    (scope index : Nat) (name : String)
    : ((tree.relocateSince move base scope).own? index name).map Declaration.unplaced
      = (tree.own? index name).map Declaration.unplaced := by
  unfold own?
  rw [relocateSince_getElem?]
  split
  · cases tree.scopes[index]? with
    | none => rfl
    | some found =>
        simp only [Option.map_some, Option.bind_some, BindingTable.get?_relocateUnless,
          Option.map_map]
        congr 1
        funext declared
        simp only [Function.comp_apply]
        split
        · rfl
        · exact declared.unplaced_relocate move
  · rfl

/-- Lookup finds the same declarations where all tables hold the same, except for places. -/
theorem unplaced_lookup_eq (wellFormed : tree.WellFormed)
    (parents
      : ∀ index : Nat,
          other.scopes[index]?.map Scope.parent = tree.scopes[index]?.map Scope.parent)
    {name : String}
    (owns
      : ∀ index,
          (other.own? index name).map Declaration.unplaced
          = (tree.own? index name).map Declaration.unplaced)
    {scope : Nat} (inside : scope < tree.size)
    : (other.lookup scope name).map (Option.map Declaration.unplaced)
      = (tree.lookup scope name).map (Option.map Declaration.unplaced) := by
  induction scope using Nat.strongRecOn with
  | ind scope ih =>
      obtain ⟨found, here⟩ := getElem?_of_lt inside
      have linksAlike := parents scope
      rw [here] at linksAlike
      obtain ⟨new, there, linked⟩ := Option.map_eq_some_iff.mp linksAlike
      have own := owns scope
      rw [lookup_eq wellFormed here, lookup_eq (wellFormed.of_parents parents) there, linked]
      generalize other.own? scope name = one, tree.own? scope name = two at own
      cases two with
      | some declared =>
          obtain ⟨moved, rfl, same⟩ := Option.map_eq_some_iff.mp own
          exact congrArg (fun found => Except.ok (some found)) same
      | none =>
          obtain rfl := Option.map_eq_none_iff.mp own
          cases above : found.parent with
          | none => rfl
          | some parent =>
              have earlier := wellFormed scope found parent here above
              exact ih parent earlier (Nat.lt_trans earlier inside)

end ScopeTree

-----------------------------------------------------------------------------------------
-- Two parses
-----------------------------------------------------------------------------------------

namespace Parse

/-- A parse of one text is made alike, but for places, of a text with the same tokens. -/
theorem exists_parseIn_relocate {tree : ScopeTree} (wellFormed : tree.WellFormed) {scope : Nat}
    (inside : scope < tree.size) {file : Option String} {first second : String}
    (same : spellings first.toList = spellings second.toList) {left : Session}
    (parsed : parseIn tree scope file first = .ok left)
    : ∃ move right, parseIn tree scope file second = .ok right
        ∧ right.tree = left.tree.relocate move
        ∧ right.errors = left.errors.map (ParseError.relocate move)
        ∧ right.scopes = left.scopes.relocateSince move tree scope := by
  obtain ⟨move, tokens, stop, apart⟩ := exists_relocation same
  obtain ⟨_, next, trace, finished, _⟩ := parseIn_eq_ok_iff.mp parsed
  let cursor := Cursor.ofTokens file (tokenize second.toList) (byteLength second.toList)
  have parallel : Cursor.Parallel move []
      (.ofTokens file (tokenize first.toList) (byteLength first.toList)) cursor :=
    ⟨by rw [List.append_nil]; exact tokens, .inl ⟨rfl, stop⟩⟩
  -- The landmarks are all the places that the parser can come across.
  have compared : (Cursor.ofTokens file (tokenize first.toList)
      (byteLength first.toList)).places ⊆ {place | place ∈ landmarks first.toList} := by
    rintro place (rfl | ⟨token, member, rfl⟩)
    · exact List.mem_append_right _ List.mem_cons_self
    · exact List.mem_append_left _ (List.mem_map_of_mem member)
  obtain ⟨others, reached, followed, ends, statements, errors⟩ :=
    trace.exists_of_abreast finished (apart.mono compared) wellFormed inside
      (fun _ => ScopeTree.mem_names_of_own?) (.inl parallel)
  rw [ScopeTree.relocateSince_self] at followed
  have alsoParsed : parseIn tree scope file second
      = .ok ⟨others, left.scopes.relocateSince move tree scope, scope, reached.reports⟩ :=
    parseIn_eq_ok_iff.mpr ⟨rfl, reached, followed, ends, rfl⟩
  refine ⟨move, _, alsoParsed, congrArg Module.mk statements, ?_, rfl⟩
  rw [(run_of_parseIn wellFormed inside alsoParsed).session_reports.1,
    (run_of_parseIn wellFormed inside parsed).session_reports.1]
  exact errors

/-- Texts with the same tokens are parsed alike. But for places, both parses give the same
statements, errors and diagnostics, every table binds the same names to the same declarations, and
every name is looked up to the same declaration.
-/
theorem parseIn_unplaced_eq {tree : ScopeTree} (wellFormed : tree.WellFormed) {scope : Nat}
    (inside : scope < tree.size) (file : Option String) {first second : String}
    (same : spellings first.toList = spellings second.toList)
    : ∃ left right, parseIn tree scope file first = .ok left
        ∧ parseIn tree scope file second = .ok right
        ∧ right.tree.unplaced = left.tree.unplaced
        ∧ right.errors.map ParseError.unplaced = left.errors.map ParseError.unplaced
        ∧ right.diagnostics.map Diagnostic.unplaced = left.diagnostics.map Diagnostic.unplaced
        ∧ (∀ index name,
            (right.scopes.own? index name).map Declaration.unplaced
            = (left.scopes.own? index name).map Declaration.unplaced)
        ∧ ∀ name,
            (right.lookup name).map (Option.map Declaration.unplaced)
            = (left.lookup name).map (Option.map Declaration.unplaced) := by
  obtain ⟨left, parsed, active, run⟩ := exists_session wellFormed inside file first
  obtain ⟨move, right, alsoParsed, statements, errors, scopes⟩ :=
    exists_parseIn_relocate wellFormed inside same parsed
  have alsoActive := (parseIn_eq_ok_iff.mp alsoParsed).1
  have errorsAlike : right.errors.map ParseError.unplaced
      = left.errors.map ParseError.unplaced := by
    rw [errors, List.map_map]
    exact List.map_congr_left fun error _ => error.unplaced_relocate move
  have owns : ∀ index name, (right.scopes.own? index name).map Declaration.unplaced
      = (left.scopes.own? index name).map Declaration.unplaced := by
    intro index name
    rw [scopes]
    exact ScopeTree.unplaced_own?_relocateSince move tree scope index name
  refine ⟨left, right, parsed, alsoParsed, ?_, errorsAlike, ?_, owns, ?_⟩
  · rw [statements, Module.relocate, Module.unplaced, Module.unplaced, List.map_map]
    exact congrArg Module.mk (List.map_congr_left fun found _ => found.unplaced_relocate move)
  · obtain ⟨leftErrors, leftDiagnostics⟩ := run.session_reports
    obtain ⟨rightErrors, rightDiagnostics⟩ :=
      (run_of_parseIn wellFormed inside alsoParsed).session_reports
    rw [rightDiagnostics, leftDiagnostics, ← rightErrors, ← leftErrors, errors, List.map_map,
      List.map_map, List.map_map]
    apply List.map_congr_left
    intro error _
    exact Reports.unplaced_diagnose file (error.unplaced_relocate move)
  · intro name
    have kept := wellFormed.of_parents run.grows.parents
    rw [Session.lookup, Session.lookup, active, alsoActive]
    apply ScopeTree.unplaced_lookup_eq kept _ (fun index => owns index name)
    · exact run.grows.size ▸ inside
    · intro index
      rw [scopes]
      exact ScopeTree.relocateSince_parent index

theorem parseIn_unplaced_eq_inner
    : let tree := (ScopeTree.new.push ScopeTree.root).1
      let first := "let a=1 let b : q=a;=;a=a"
      let second := " let\ta = 1\n  let b:q = a ; = ; \r\n a = a "
      (tree.WellFormed ∧ 1 < tree.size ∧ spellings first.toList = spellings second.toList)
      ∧ ∃ left right, parseIn tree 1 none first = .ok left
        ∧ parseIn tree 1 none second = .ok right
        ∧ right.tree.unplaced = left.tree.unplaced
        ∧ right.errors.map ParseError.unplaced = left.errors.map ParseError.unplaced
        ∧ right.diagnostics.map Diagnostic.unplaced = left.diagnostics.map Diagnostic.unplaced
        ∧ (∀ index name,
            (right.scopes.own? index name).map Declaration.unplaced
            = (left.scopes.own? index name).map Declaration.unplaced)
        ∧ ∀ name,
            (right.lookup name).map (Option.map Declaration.unplaced)
            = (left.lookup name).map (Option.map Declaration.unplaced) := by
  have same : spellings "let a=1 let b : q=a;=;a=a".toList
      = spellings " let\ta = 1\n  let b:q = a ; = ; \r\n a = a ".toList := by
    decide +kernel
  exact ⟨⟨by decide, by decide, same⟩, parseIn_unplaced_eq (by decide) (by decide) none same⟩

end Parse

end LetLang

import LetLang.Proofs.Scope.Lookup

/-! Resolution on every tree that can be built from the tree of one scope by opening scopes and
declaring names. The parents of such a tree are earlier scopes, so the walk outwards from a scope
goes down to the root. A name resolves to the first scope on that walk in which it was ever
declared, with its last declaration there. Declaring a name only changes how that name resolves,
and only from scopes whose walk reaches the declaring scope before any other that holds the name.
-/

namespace LetLang.ScopeTree

/-- A change of a tree. -/
inductive Change where
  | push (parent : Nat)
  | declare (scope : Nat) (name : String) (declaration : Declaration)

/-- What a change declares for a name in a scope. -/
def Change.declares? (scope : Nat) (name : String) : Change → Option Declaration
  | push _ => none
  | declare target bound declaration =>
      if target = scope ∧ bound = name then some declaration else none

/-- A change is made to a tree. It only names scopes that the tree has. -/
inductive Changes (tree : ScopeTree) : Change → ScopeTree → Prop
  | push {parent} (inside : parent < tree.size)
    : tree.Changes (.push parent) (tree.push parent).1
  | declare {scope name declaration after}
    (declared : tree.declare scope name declaration = .ok after)
    : tree.Changes (.declare scope name declaration) after

/-- The trees that can be built, each with the changes made to it, last one first. -/
inductive Built : List Change → ScopeTree → Prop
  | new : Built [] .new
  | step {history tree change after} (built : Built history tree)
    (changes : tree.Changes change after)
    : Built (change :: history) after

/-- The last declaration of a name in a scope. -/
def declared? (history : List Change) (scope : Nat) (name : String) : Option Declaration :=
  history.findSome? (Change.declares? scope name)

/-- The first scope of a chain in which a name was ever declared, with its last declaration
there.
-/
def nearest? (history : List Change) (chain : List Nat) (name : String)
    : Option (Nat × Declaration) :=
  chain.findSome? fun index =>
    (declared? history index name).map fun declaration => (index, declaration)

/-- A chain of scopes goes from parent to parent down to the root. -/
structure Outwards (tree : ScopeTree) (scope : Nat) (chain : List Nat) : Prop where
  first : chain.head? = some scope
  last : chain.getLast? = some root
  linked : chain.IsChain fun inner outer => tree.parent inner = .ok (some outer)
  decreasing : chain.Pairwise (· > ·)

-----------------------------------------------------------------------------------------
-- The chain of a scope
-----------------------------------------------------------------------------------------

/-- The scopes that a walk outwards passes: the scope itself, then those that its parent leads
to.
-/
inductive Leads (tree : ScopeTree) : Nat → List Nat → Prop
  | stop {index scope} (found : tree.scopes[index]? = some scope) (free : scope.parent = none)
    : tree.Leads index [index]
  | step {index scope parent chain} (found : tree.scopes[index]? = some scope)
    (linked : scope.parent = some parent) (above : tree.Leads parent chain)
    : tree.Leads index (index :: chain)

/-- The first binding of a name along a chain. -/
def firstOwn? (tree : ScopeTree) (chain : List Nat) (name : String) : Option (Nat × Declaration) :=
  chain.findSome? fun index =>
    (tree.own? index name).map fun declaration => (index, declaration)

section Chain

variable {tree other : ScopeTree} {scope : Nat} {chain : List Nat}

theorem exists_leads (wellFormed : tree.WellFormed) {steps : Nat} (inside : scope < tree.size)
    (enough : scope < steps)
    : ∃ chain,
        tree.Leads scope chain
        ∧ (tree.walkFor scope steps).passed.map Prod.fst = chain
        ∧ ∀ name, (tree.walkFor scope steps).binding? name = tree.firstOwn? chain name := by
  induction steps generalizing scope with
  | zero => omega
  | succ steps ih =>
      obtain ⟨found, here⟩ := getElem?_of_lt inside
      have own (name : String) : tree.own? scope name = found.bindings.get? name := by
        simp [own?, here]
      rw [walkFor_succ steps here]
      cases linked : found.parent with
      | none =>
          exact ⟨[scope], .stop here linked, rfl, fun name => by
            simp [Walk.binding?, firstOwn?, own]⟩
      | some parent =>
          have earlier := wellFormed scope found parent here linked
          obtain ⟨chain, leads, passed, bindings⟩ := @ih parent (by omega) (by omega)
          refine ⟨scope :: chain, .step here linked leads, by simp [passed], fun name => ?_⟩
          have above := bindings name
          simp only [Walk.binding?, firstOwn?] at above
          simp only [Walk.binding?, firstOwn?, List.findSome?_cons, own, above]

theorem Leads.unique {chain other : List Nat} (leads : tree.Leads scope chain)
    (also : tree.Leads scope other)
    : other = chain := by
  induction leads generalizing other with
  | stop found free =>
      cases also with
      | stop => rfl
      | step again linked _ =>
          obtain rfl := Option.some.inj (found.symm.trans again)
          simp [free] at linked
  | step found linked _ ih =>
      cases also with
      | stop again free =>
          obtain rfl := Option.some.inj (found.symm.trans again)
          simp [linked] at free
      | step again alsoLinked above =>
          obtain rfl := Option.some.inj (found.symm.trans again)
          obtain rfl := Option.some.inj (linked.symm.trans alsoLinked)
          rw [ih above]

/-- Where a walk leads to is what the tree answers, and names resolve along it. -/
theorem Leads.answers (wellFormed : tree.WellFormed) (leads : tree.Leads scope chain)
    : tree.ancestors scope = .ok chain
      ∧ ∀ name,
          tree.resolve scope name = .ok (tree.firstOwn? chain name)
          ∧ tree.lookup scope name = .ok ((tree.firstOwn? chain name).map Prod.snd)
          ∧ tree.isDeclared scope name = .ok (tree.firstOwn? chain name).isSome := by
  have inside : scope < tree.size := by
    cases leads with
    | stop found _ | step found _ _ => exact lt_size_of_getElem? found
  have enough : scope < tree.size + 1 := Nat.lt_succ_of_lt inside
  obtain ⟨same, alsoLeads, passed, bindings⟩ := exists_leads wellFormed inside enough
  obtain rfl := leads.unique alsoLeads
  have ends := walkFor_fault_eq_none wellFormed inside enough
  refine ⟨by simp [ancestors, walk, ends, passed], fun name => ?_⟩
  have resolved : tree.resolve scope name = .ok (tree.firstOwn? same name) := by
    rw [resolve_of_wellFormed wellFormed inside, walk, bindings name]
  refine ⟨resolved, ?_, ?_⟩ <;>
    simp [isDeclared, lookup, resolved, bind, Except.bind, pure, Except.pure]

theorem Leads.of_parents
    (parents : ∀ index < tree.size,
      other.scopes[index]?.map Scope.parent = tree.scopes[index]?.map Scope.parent)
    (leads : tree.Leads scope chain)
    : other.Leads scope chain := by
  induction leads with
  | stop found free =>
      have same := parents _ (lt_size_of_getElem? found)
      rw [found] at same
      obtain ⟨new, there, alike⟩ := Option.map_eq_some_iff.mp same
      exact .stop there (alike.trans free)
  | step found linked _ ih =>
      have same := parents _ (lt_size_of_getElem? found)
      rw [found] at same
      obtain ⟨new, there, alike⟩ := Option.map_eq_some_iff.mp same
      exact .step there (alike.trans linked) ih

end Chain

-----------------------------------------------------------------------------------------
-- What every built tree has
-----------------------------------------------------------------------------------------

/-- Only the root has no parent. -/
def Rooted (tree : ScopeTree) : Prop :=
  ∀ (index : Nat) (scope : Scope),
    tree.scopes[index]? = some scope → (scope.parent = none ↔ index = root)

section Changes

variable {tree after : ScopeTree} {change : Change}

theorem Changes.wellFormed (changes : tree.Changes change after) (wellFormed : tree.WellFormed)
    : after.WellFormed := by
  cases changes with
  | push inside => exact wellFormed.push inside
  | declare declared => exact wellFormed.declare declared

/-- A change keeps the parents of all scopes. -/
theorem Changes.parent_eq (changes : tree.Changes change after) {index : Nat}
    (inside : index < tree.size)
    : after.scopes[index]?.map Scope.parent = tree.scopes[index]?.map Scope.parent := by
  cases changes with
  | push => rw [push_getElem?_of_lt inside]
  | declare declared => exact declare_parent declared index

/-- A scope that a change brings in has a parent. -/
theorem Changes.parent_ne_none (changes : tree.Changes change after) {index : Nat} {found : Scope}
    (here : after.scopes[index]? = some found) (outside : tree.size ≤ index)
    : found.parent ≠ none := by
  have bound := lt_size_of_getElem? here
  cases changes with
  | push inside =>
      rw [push_size] at bound
      obtain rfl : index = tree.size := by omega
      rw [push_getElem?_self] at here
      cases here
      exact Option.some_ne_none _
  | declare declared =>
      rw [declare_size declared] at bound
      omega

theorem Changes.own?_eq (changes : tree.Changes change after) (index : Nat) (name : String)
    : after.own? index name = (change.declares? index name).or (tree.own? index name) := by
  cases changes with
  | @push parent =>
      have size := push_size tree parent
      rw [Change.declares?, Option.none_or]
      rcases Nat.lt_trichotomy index tree.size with below | rfl | above
      · simp [own?, push_getElem?_of_lt below]
      · rw [push_own?_self]
        simp [own?, ScopeTree.size]
      · simp only [ScopeTree.size] at above size
        rw [own?, own?, Array.getElem?_eq_none (by omega), Array.getElem?_eq_none (by omega)]
  | @declare scope bound declaration _ declared =>
      rw [declare_own? declared, Change.declares?]
      by_cases same : scope = index ∧ bound = name
      · rw [if_pos same, if_pos ⟨same.1.symm, same.2.symm⟩, Option.some_or]
      · rw [if_neg same, if_neg (fun both => same ⟨both.1.symm, both.2.symm⟩), Option.none_or]

end Changes

section Built

variable {history : List Change} {tree : ScopeTree} {scope : Nat} {chain : List Nat}

theorem eq_of_getElem?_new {index : Nat} {found : Scope}
    (here : ScopeTree.new.scopes[index]? = some found)
    : index = root ∧ found = ⟨.empty, none⟩ := by
  simp only [ScopeTree.new, List.getElem?_toArray, List.getElem?_singleton] at here
  split at here
  · next first => exact ⟨first, (Option.some.inj here).symm⟩
  · cases here

theorem Built.wellFormed (built : Built history tree) : tree.WellFormed := by
  induction built with
  | new => decide
  | step _ changes ih => exact changes.wellFormed ih

theorem Built.rooted (built : Built history tree) : root < tree.size ∧ tree.Rooted := by
  induction built with
  | new =>
      refine ⟨by decide, fun index found here => ?_⟩
      obtain ⟨first, rfl⟩ := eq_of_getElem?_new here
      exact ⟨fun _ => first, fun _ => rfl⟩
  | @step history tree change after _ changes ih =>
      obtain ⟨some, rooted⟩ := ih
      have grown : tree.size ≤ after.size := by
        cases changes with
        | push => rw [push_size]; omega
        | declare declared => rw [declare_size declared]
      refine ⟨Nat.lt_of_lt_of_le some grown, fun index found here => ?_⟩
      by_cases inside : index < tree.size
      · have same := changes.parent_eq inside
        rw [here] at same
        obtain ⟨old, there, alike⟩ := Option.map_eq_some_iff.mp same.symm
        rw [← alike]
        exact rooted index old there
      · have linked := changes.parent_ne_none here (Nat.not_lt.mp inside)
        exact iff_of_false linked (by omega)

/-- The table of a scope holds the last declaration of each name. -/
theorem Built.own?_eq (built : Built history tree) (index : Nat) (name : String)
    : tree.own? index name = declared? history index name := by
  induction built with
  | new =>
      refine Option.bind_eq_none_iff.mpr fun found here => ?_
      obtain ⟨_, rfl⟩ := eq_of_getElem?_new here
      rfl
  | @step _ _ change _ _ changes ih =>
      rw [changes.own?_eq, ih, declared?, declared?, List.findSome?_cons]
      cases change.declares? index name <;> rfl

theorem Built.firstOwn?_eq (built : Built history tree) (chain : List Nat) (name : String)
    : tree.firstOwn? chain name = nearest? history chain name := by
  simp only [firstOwn?, nearest?, built.own?_eq]

theorem Leads.outwards (wellFormed : tree.WellFormed) (rooted : tree.Rooted)
    (leads : tree.Leads scope chain)
    : tree.Outwards scope chain := by
  induction leads with
  | @stop index found here free =>
      have last := (rooted index found here).mp free
      exact ⟨rfl, congrArg some last, .singleton _, List.pairwise_singleton _ _⟩
  | @step index found parent chain here linked above ih =>
      have earlier := wellFormed index found parent here linked
      obtain ⟨rest, rfl⟩ := List.head?_eq_some_iff.mp ih.first
      have toParent : tree.parent index = .ok (some parent) := by
        simp [ScopeTree.parent, get, here, linked, bind, Except.bind, pure, Except.pure]
      refine ⟨rfl, by simpa using ih.last, .cons_cons toParent ih.linked, ?_⟩
      refine List.pairwise_cons.mpr ⟨fun outer member => ?_, ih.decreasing⟩
      rcases List.mem_cons.mp member with rfl | behind
      · exact earlier
      · exact Nat.lt_trans (List.rel_of_pairwise_cons ih.decreasing behind) earlier

end Built

-----------------------------------------------------------------------------------------
-- Declaring a name
-----------------------------------------------------------------------------------------

/-- A scope stands on a chain, and not behind the one that holds a name. -/
def ReachedFirst (chain : List Nat) (target : Nat) (held : Option (Nat × Declaration)) : Prop :=
  target ∈ chain
  ∧ ∀ holder declaration,
      held = some (holder, declaration) → chain.idxOf target ≤ chain.idxOf holder

section Declare

variable {tree after : ScopeTree} {target : Nat} {name : String} {declaration : Declaration}

theorem own?_of_firstOwn? {chain : List Nat} {holder : Nat} {held : Declaration}
    (first : tree.firstOwn? chain name = some (holder, held))
    : tree.own? holder name = some held := by
  obtain ⟨index, _, here⟩ := List.exists_of_findSome?_eq_some first
  obtain ⟨found, own, same⟩ := Option.map_eq_some_iff.mp here
  cases same
  exact own

theorem firstOwn?_cons (tree : ScopeTree) (index : Nat) (chain : List Nat) (name : String)
    : tree.firstOwn? (index :: chain) name
      = match tree.own? index name with
        | some declaration => some (index, declaration)
        | none => tree.firstOwn? chain name := by
  rw [firstOwn?, List.findSome?_cons]
  cases tree.own? index name <;> rfl

/-- A scope that does not hold a name can be left out in front of a chain. -/
theorem reachedFirst_cons_iff {index : Nat} {chain : List Nat} (different : index ≠ target)
    (free : tree.own? index name = none)
    : ReachedFirst (index :: chain) target (tree.firstOwn? (index :: chain) name)
      ↔ ReachedFirst chain target (tree.firstOwn? chain name) := by
  have same : tree.firstOwn? (index :: chain) name = tree.firstOwn? chain name := by
    rw [firstOwn?_cons, free]
  unfold ReachedFirst
  rw [same, List.mem_cons, or_iff_right (Ne.symm different)]
  refine and_congr_right fun _ => forall₂_congr fun holder held => ?_
  refine imp_congr_right fun first => ?_
  have elsewhere : index ≠ holder := by
    rintro rfl
    have own := own?_of_firstOwn? first
    simp [free] at own
  rw [List.idxOf_cons_ne _ different, List.idxOf_cons_ne _ elsewhere]
  omega

/-- Declaring a name puts the new declaration in front of those that were seen behind it. -/
theorem firstOwn?_declare (declared : tree.declare target name declaration = .ok after)
    (chain : List Nat)
    : (ReachedFirst chain target (tree.firstOwn? chain name)
        → after.firstOwn? chain name = some (target, declaration))
      ∧ (¬ReachedFirst chain target (tree.firstOwn? chain name)
        → after.firstOwn? chain name = tree.firstOwn? chain name) := by
  have own := fun index => declare_own? declared index name
  induction chain with
  | nil => exact ⟨fun reached => (List.not_mem_nil reached.1).elim, fun _ => rfl⟩
  | cons index chain ih =>
      by_cases here : index = target
      · subst here
        have found : after.firstOwn? (index :: chain) name = some (index, declaration) := by
          rw [firstOwn?_cons, own, if_pos ⟨rfl, rfl⟩]
        refine ⟨fun _ => found, fun behind => (behind ⟨List.mem_cons_self, ?_⟩).elim⟩
        intro holder held _
        simp
      have unchanged : after.own? index name = tree.own? index name := by
        rw [own, if_neg (fun both => here both.1)]
      cases bound : tree.own? index name with
      | some held =>
          have before : tree.firstOwn? (index :: chain) name = some (index, held) := by
            rw [firstOwn?_cons, bound]
          refine ⟨fun reached => ?_, fun _ => by rw [before, firstOwn?_cons, unchanged, bound]⟩
          have order := reached.2 index held before
          rw [List.idxOf_cons_self, List.idxOf_cons_ne _ here] at order
          omega
      | none =>
          rw [reachedFirst_cons_iff here bound, firstOwn?_cons, firstOwn?_cons, unchanged, bound]
          exact ih

theorem firstOwn?_declare_of_ne (declared : tree.declare target name declaration = .ok after)
    (chain : List Nat) {other : String} (different : other ≠ name)
    : after.firstOwn? chain other = tree.firstOwn? chain other := by
  simp only [firstOwn?, declare_own? declared, different, and_false, if_false]

end Declare

-----------------------------------------------------------------------------------------
-- Every built tree
-----------------------------------------------------------------------------------------

section Resolution

variable {history : List Change} {tree : ScopeTree}

theorem Built.exists_parent (built : Built history tree) {index : Nat} (inner : root < index)
    (inside : index < tree.size)
    : ∃ parent, parent < index ∧ tree.parent index = .ok (some parent) := by
  obtain ⟨found, here⟩ := getElem?_of_lt inside
  cases linked : found.parent with
  | none => exact absurd ((built.rooted.2 index found here).mp linked) (Nat.ne_of_gt inner)
  | some parent =>
      refine ⟨parent, built.wellFormed index found parent here linked, ?_⟩
      simp [ScopeTree.parent, get, here, linked, bind, Except.bind, pure, Except.pure]

/-- No change makes a name invisible that was visible. -/
theorem Changes.isDeclared (wellFormed : tree.WellFormed) {change : Change} {after : ScopeTree}
    (changes : tree.Changes change after) {scope : Nat} {chain : List Nat}
    (leads : tree.Leads scope chain) {name : String}
    (visible : tree.isDeclared scope name = .ok true)
    : after.isDeclared scope name = .ok true := by
  have still : after.Leads scope chain :=
    leads.of_parents fun index inside => changes.parent_eq inside
  obtain ⟨_, answers⟩ := leads.answers wellFormed
  obtain ⟨_, answersAfter⟩ := still.answers (changes.wellFormed wellFormed)
  rw [(answers name).2.2] at visible
  rw [(answersAfter name).2.2]
  have held : (tree.firstOwn? chain name).isSome = true := Except.ok.inj visible
  obtain ⟨index, member, bound⟩ := List.findSome?_isSome_iff.mp held
  refine congrArg Except.ok (List.findSome?_isSome_iff.mpr ⟨index, member, ?_⟩)
  rw [Option.isSome_map] at bound ⊢
  rw [changes.own?_eq, Option.isSome_or, bound, Bool.or_true]

/-- On every tree that can be built, each scope but the root has an earlier scope as its parent,
and the scopes around a scope lead down to the root. A name resolves to the first of them in which
it was ever declared, with the declaration made there last. Declaring a name changes how that name
resolves from those scopes that reach the declaring scope no later than any that holds the name,
and changes nothing else; and a name that is visible stays visible.
-/
theorem Built.resolves_nearest (built : Built history tree)
    : (∀ index, root < index → index < tree.size
        → ∃ parent, parent < index ∧ tree.parent index = .ok (some parent))
      ∧ ∀ scope < tree.size, ∃ chain,
          tree.ancestors scope = .ok chain
          ∧ tree.Outwards scope chain
          ∧ (∀ name,
              tree.resolve scope name = .ok (nearest? history chain name)
              ∧ tree.lookup scope name = .ok ((nearest? history chain name).map Prod.snd)
              ∧ tree.isDeclared scope name = .ok (nearest? history chain name).isSome)
          ∧ (∀ target < tree.size, ∀ name declaration, ∃ after,
              tree.declare target name declaration = .ok after
              ∧ ∀ other,
                  (other = name ∧ ReachedFirst chain target (nearest? history chain name)
                    → after.resolve scope other = .ok (some (target, declaration)))
                  ∧ (¬(other = name ∧ ReachedFirst chain target (nearest? history chain name))
                    → after.resolve scope other = tree.resolve scope other))
          ∧ ∀ change after, tree.Changes change after
              → ∀ name, tree.isDeclared scope name = .ok true
                → after.isDeclared scope name = .ok true := by
  have wellFormed := built.wellFormed
  refine ⟨fun index inner inside => built.exists_parent inner inside, fun scope inside => ?_⟩
  obtain ⟨chain, leads, _⟩ := exists_leads wellFormed inside (Nat.lt_succ_self scope)
  obtain ⟨ancestors, answers⟩ := leads.answers wellFormed
  refine ⟨chain, ancestors, leads.outwards wellFormed built.rooted.2, ?_, ?_, ?_⟩
  · intro name
    rw [← built.firstOwn?_eq]
    exact answers name
  · intro target present name declaration
    obtain ⟨after, declared⟩ := declare_eq_ok present name declaration
    have changes : tree.Changes _ after := .declare declared
    have still : after.Leads scope chain :=
      leads.of_parents fun index inside => changes.parent_eq inside
    obtain ⟨_, answersAfter⟩ := still.answers (changes.wellFormed wellFormed)
    obtain ⟨reached, missed⟩ := firstOwn?_declare declared chain
    refine ⟨after, declared, fun other => ?_⟩
    rw [← built.firstOwn?_eq, (answers other).1, (answersAfter other).1]
    refine ⟨?_, fun behind => congrArg Except.ok ?_⟩
    · rintro ⟨rfl, first⟩
      exact congrArg Except.ok (reached first)
    · by_cases same : other = name
      · subst same
        exact missed fun first => behind ⟨rfl, first⟩
      · exact firstOwn?_declare_of_ne declared chain same
  · intro change after changes name visible
    exact changes.isDeclared wellFormed leads visible

/-- A declaration between two scopes that hold its name is not seen from the inner one. -/
theorem Built.resolves_nearest_between
    : let outer := Declaration.typeAlias 0 ⟨5, "t"⟩ ⟨9, "number"⟩
      let inner := Declaration.typeAlias 20 ⟨25, "t"⟩ ⟨29, "boolean"⟩
      let history : List Change :=
        [.declare 2 "t" inner, .push 1, .declare 0 "t" outer, .push 0]
      let tree : ScopeTree :=
        ⟨#[⟨⟨[("t", outer)]⟩, none⟩, ⟨.empty, some 0⟩, ⟨⟨[("t", inner)]⟩, some 1⟩]⟩
      Built history tree
      ∧ tree.resolve 2 "t" = .ok (some (2, inner))
      ∧ ∃ after,
          tree.declare 1 "t" outer = .ok after
          ∧ after.resolve 2 "t" = .ok (some (2, inner))
          ∧ after.resolve 1 "t" = .ok (some (1, outer)) := by
  intro outer inner history tree
  have built : Built history tree :=
    .step (.step (.step (.step .new (.push (by decide))) (.declare rfl)) (.push (by decide)))
      (.declare rfl)
  have innerChain : tree.ancestors 2 = .ok [2, 1, 0] := rfl
  have middleChain : tree.ancestors 1 = .ok [1, 0] := rfl
  obtain ⟨chain, ancestors, _, answers, declares, _⟩ := built.resolves_nearest.2 2 (by decide)
  obtain rfl := Except.ok.inj (innerChain.symm.trans ancestors)
  have held : tree.resolve 2 "t" = .ok (some (2, inner)) := (answers "t").1
  obtain ⟨after, declared, resolved⟩ := declares 1 (by decide) "t" outer
  obtain ⟨chain, ancestors, _, _, declares, _⟩ := built.resolves_nearest.2 1 (by decide)
  obtain rfl := Except.ok.inj (middleChain.symm.trans ancestors)
  obtain ⟨again, same, resolvedAgain⟩ := declares 1 (by decide) "t" outer
  obtain rfl := Except.ok.inj (declared.symm.trans same)
  refine ⟨built, held, after, declared, ?_, ?_⟩
  · refine ((resolved "t").2 ?_).trans held
    rintro ⟨-, -, order⟩
    exact absurd (order 2 inner rfl) (by decide)
  · refine (resolvedAgain "t").1 ⟨rfl, by decide, fun holder declaration _ => ?_⟩
    simp

end Resolution

end LetLang.ScopeTree

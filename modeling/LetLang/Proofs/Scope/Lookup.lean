import LetLang.Proofs.Scope.Visibility

/-! Lookup along the chain of scopes. On a tree whose parents are earlier scopes a name has the
declaration of the scope's own table, or else the one that it has in the scope around; so lookup
only depends on the scopes up to the one it starts from.
-/

namespace LetLang.ScopeTree

-----------------------------------------------------------------------------------------
-- One scope after the other
-----------------------------------------------------------------------------------------

/-- A walk that can end does not depend on the number of steps it may take. -/
theorem walkFor_eq_walkFor {tree : ScopeTree} (wellFormed : tree.WellFormed)
    {index left right : Nat} (inside : index < tree.size) (enough : index < left)
    (alsoEnough : index < right)
    : tree.walkFor index left = tree.walkFor index right := by
  induction left generalizing index right with
  | zero => omega
  | succ left ih =>
      cases right with
      | zero => omega
      | succ right =>
          obtain ⟨scope, found⟩ := getElem?_of_lt inside
          rw [walkFor_succ left found, walkFor_succ right found]
          cases linked : scope.parent with
          | none => rfl
          | some parent =>
              have earlier := wellFormed index scope parent found linked
              simp only
              rw [@ih parent right (by omega) (by omega) (by omega)]

/-- The nearest declaration is the scope's own, or else the one that the parent sees. -/
theorem lookup_eq {tree : ScopeTree} (wellFormed : tree.WellFormed) {index : Nat}
    {scope : Scope} (found : tree.scopes[index]? = some scope) (name : String)
    : tree.lookup index name
      = match tree.own? index name, scope.parent with
        | some declaration, _ => .ok (some declaration)
        | none, none => .ok none
        | none, some parent => tree.lookup parent name := by
  have inside := lt_size_of_getElem? found
  have own : tree.own? index name = scope.bindings.get? name := by simp [own?, found]
  cases bound : tree.own? index name with
  | some declaration => exact lookup_of_own? bound
  | none =>
      rw [own] at bound
      have walked := walkFor_succ tree.size found
      rw [lookup, resolve_of_wellFormed wellFormed inside, walk, walked]
      cases linked : scope.parent with
      | none => simp [Walk.binding?, bound, bind, Except.bind, pure, Except.pure]
      | some parent =>
          have earlier := wellFormed index scope parent found linked
          have outside : parent < tree.size := Nat.lt_trans earlier inside
          have same : tree.walkFor parent tree.size = tree.walkFor parent (tree.size + 1) :=
            walkFor_eq_walkFor wellFormed outside outside (by omega)
          simp only [lookup, resolve_of_wellFormed wellFormed outside, Walk.binding?, walk,
            List.findSome?_cons, bound, Option.map_none, same]

/-- Trees that agree up to a scope agree on what is seen from there. -/
theorem lookup_congr {tree other : ScopeTree} (wellFormed : tree.WellFormed)
    (alsoWellFormed : other.WellFormed) {scope : Nat} (inside : scope < tree.size)
    (agree : ∀ index ≤ scope, other.scopes[index]? = tree.scopes[index]?) (name : String)
    : other.lookup scope name = tree.lookup scope name := by
  induction scope using Nat.strongRecOn with
  | ind scope ih =>
      obtain ⟨found, here⟩ := getElem?_of_lt inside
      have there := (agree scope (Nat.le_refl _)).trans here
      have own : other.own? scope name = tree.own? scope name := by simp [own?, here, there]
      rw [lookup_eq wellFormed here, lookup_eq alsoWellFormed there, own]
      cases tree.own? scope name with
      | some declaration => rfl
      | none =>
          cases linked : found.parent with
          | none => rfl
          | some parent =>
              have earlier := wellFormed scope found parent here linked
              exact ih parent earlier (Nat.lt_trans earlier inside)
                fun index below => agree index (Nat.le_trans below (Nat.le_of_lt earlier))

/-- Declaring a name changes what is seen from the scope for that name only. -/
theorem lookup_declare {tree after : ScopeTree} (wellFormed : tree.WellFormed) {scope : Nat}
    (inside : scope < tree.size) {name : String} {declaration : Declaration}
    (declared : tree.declare scope name declaration = .ok after) (other : String)
    : after.lookup scope other
      = if other = name then .ok (some declaration) else tree.lookup scope other := by
  have own := declare_own? declared scope other
  by_cases same : other = name
  · rw [if_pos ⟨rfl, same⟩] at own
    rw [if_pos same, lookup_of_own? own]
  rw [if_neg (fun both => same both.2)] at own
  obtain ⟨found, here⟩ := getElem?_of_lt inside
  have kept := declare_parent declared scope
  rw [here] at kept
  obtain ⟨new, there, parents⟩ := Option.map_eq_some_iff.mp kept
  have alsoWellFormed := wellFormed.declare declared
  rw [if_neg same, lookup_eq wellFormed here, lookup_eq alsoWellFormed there, own, parents]
  cases tree.own? scope other with
  | some declaration => rfl
  | none =>
      cases linked : found.parent with
      | none => rfl
      | some parent =>
          have earlier := wellFormed scope found parent here linked
          apply lookup_congr wellFormed alsoWellFormed (Nat.lt_trans earlier inside)
          intro index below
          have different : index ≠ scope := Nat.ne_of_lt (Nat.lt_of_le_of_lt below earlier)
          simp [declare_getElem? declared, different]

-----------------------------------------------------------------------------------------
-- Opening a scope
-----------------------------------------------------------------------------------------

section Push

variable {tree : ScopeTree} {scope : Nat}

theorem push_size (tree : ScopeTree) (scope : Nat)
    : (tree.push scope).1.size = tree.size + 1 := by
  simp [push, size]

theorem push_getElem?_of_lt {index : Nat} (inside : index < tree.size)
    : (tree.push scope).1.scopes[index]? = tree.scopes[index]? := by
  have different : index ≠ tree.scopes.size := Nat.ne_of_lt inside
  simp [push, Array.getElem?_push, different]

theorem push_getElem?_self
    : (tree.push scope).1.scopes[tree.size]? = some ⟨.empty, some scope⟩ := by
  simp [push, size]

theorem push_own?_self (name : String) : (tree.push scope).1.own? tree.size name = none := by
  simp [own?, push_getElem?_self, BindingTable.empty, BindingTable.get?]

theorem WellFormed.push (wellFormed : tree.WellFormed) (inside : scope < tree.size)
    : (tree.push scope).1.WellFormed := by
  intro index found parent here linked
  rcases Nat.lt_trichotomy index tree.size with below | rfl | above
  · rw [push_getElem?_of_lt below] at here
    exact wellFormed index found parent here linked
  · rw [push_getElem?_self] at here
    cases here
    cases linked
    exact inside
  · have bound := lt_size_of_getElem? here
    rw [push_size] at bound
    omega

/-- A new scope sees what its parent sees. -/
theorem lookup_push (wellFormed : tree.WellFormed) (inside : scope < tree.size) (name : String)
    : (tree.push scope).1.lookup tree.size name = tree.lookup scope name := by
  have pushed := wellFormed.push inside
  rw [lookup_eq pushed push_getElem?_self, push_own?_self]
  exact lookup_congr wellFormed pushed inside
    (fun index below => push_getElem?_of_lt (Nat.lt_of_le_of_lt below inside)) name

end Push

end LetLang.ScopeTree

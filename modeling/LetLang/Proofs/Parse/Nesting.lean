import LetLang.Proofs.Parse.Declarations
import LetLang.Proofs.Parse.Traces
import LetLang.Proofs.Scope.Lookup

/-! Parsing into a fresh child of a scope. Its declarations go into a table of their own, yet the
names seen from the child are at every point those that are seen when parsing into the scope
itself, so both parses make the same attempts.
-/

namespace LetLang.Parse

-----------------------------------------------------------------------------------------
-- Two parses side by side
-----------------------------------------------------------------------------------------

section

variable {flat nested after : ScopeTree} {scope child : Nat} {cursor next : Cursor}
  {attempts : List Attempt}

theorem isDeclared_eq_of_lookup_eq
    (alike : ∀ name, nested.lookup child name = flat.lookup scope name)
    : nested.isDeclared child = flat.isDeclared scope := by
  funext name
  rw [ScopeTree.isDeclared, ScopeTree.isDeclared, alike]

/-- What one declaration makes of the names seen on both sides. -/
theorem exists_install_of_lookup_eq (wellFormed : flat.WellFormed) (inside : scope < flat.size)
    (alsoWellFormed : nested.WellFormed) (alsoInside : child < nested.size)
    (alike : ∀ name, nested.lookup child name = flat.lookup scope name)
    {declared : Option Declaration} (installed : install flat scope declared = .ok after)
    : ∃ other, install nested child declared = .ok other
        ∧ ∀ name, other.lookup child name = after.lookup scope name := by
  cases declared with
  | none =>
      cases installed
      exact ⟨nested, rfl, alike⟩
  | some declared =>
      obtain ⟨other, result⟩ :=
        ScopeTree.declare_eq_ok alsoInside declared.name.text declared
      refine ⟨other, result, ?_⟩
      intro name
      rw [ScopeTree.lookup_declare wellFormed inside installed,
        ScopeTree.lookup_declare alsoWellFormed alsoInside result, alike]

/-- Where two scopes see the same declarations, a trace into one can be followed in the other
with the same outcomes.
-/
theorem Trace.exists_of_lookup_eq (trace : Trace scope flat cursor attempts after next)
    (wellFormed : flat.WellFormed) (inside : scope < flat.size)
    (alsoWellFormed : nested.WellFormed) (alsoInside : child < nested.size)
    (alike : ∀ name, nested.lookup child name = flat.lookup scope name)
    : ∃ others final, Trace child nested cursor others final next
        ∧ others.map Attempt.outcome = attempts.map Attempt.outcome
        ∧ ∀ name, final.lookup child name = after.lookup scope name := by
  induction trace generalizing nested with
  | refl => exact ⟨[], nested, .refl, rfl, alike⟩
  | @step flat cursor made rest after next more first _ ih =>
      obtain ⟨_, _, result, installed, resumed⟩ := attempt_eq_ok_iff.mp first
      obtain ⟨other, alsoInstalled, stillAlike⟩ := exists_install_of_lookup_eq wellFormed inside
        alsoWellFormed alsoInside alike installed
      obtain ⟨kept, size⟩ := install_wellFormed wellFormed installed
      obtain ⟨alsoKept, alsoSize⟩ := install_wellFormed alsoWellFormed alsoInstalled
      obtain ⟨others, final, later, outcomes, seen⟩ :=
        ih kept (size ▸ inside) alsoKept (alsoSize ▸ alsoInside) stillAlike
      have same : attempt nested child cursor
          = .ok ⟨cursor, nested, made.outcome, other, made.next⟩ := by
        refine attempt_eq_ok_iff.mpr ⟨rfl, rfl, ?_, alsoInstalled, resumed⟩
        rw [isDeclared_eq_of_lookup_eq alike]
        exact result
      exact ⟨_, final, .step more same later, by simp [outcomes], seen⟩

end

-----------------------------------------------------------------------------------------
-- Whole parses
-----------------------------------------------------------------------------------------

/-- What is read off the outcomes of attempts is the same where the outcomes are. -/
theorem filterMap_outcome_congr {α : Type} {left right : List Attempt}
    (same : left.map Attempt.outcome = right.map Attempt.outcome) (view : Outcome → Option α)
    : left.filterMap (fun made => view made.outcome)
      = right.filterMap (fun made => view made.outcome) := by
  have views : ∀ attempts : List Attempt,
      attempts.filterMap (fun made => view made.outcome)
        = (attempts.map Attempt.outcome).filterMap view :=
    fun _ => (List.filterMap_map ..).symm
  rw [views, views, same]

/-- Parsing into a scope and parsing into a fresh child of it give the same module, the same
errors and diagnostics, and the same declaration for each name. The parse into the child changes
no table but the child's, which gets the bindings that the other parse adds to the scope.
-/
theorem parseIn_push {tree : ScopeTree} (wellFormed : tree.WellFormed) {scope : Nat}
    (inside : scope < tree.size) (file : Option String) (source : String)
    : ∃ flat nested, parseIn tree scope file source = .ok flat
        ∧ parseIn (tree.push scope).1 (tree.push scope).2 file source = .ok nested
        ∧ nested.tree = flat.tree
        ∧ nested.errors = flat.errors
        ∧ nested.diagnostics = flat.diagnostics
        ∧ (∀ name, nested.lookup name = flat.lookup name)
        ∧ (∀ index < tree.size, nested.scopes.scopes[index]? = tree.scopes[index]?)
        ∧ ∀ name declared,
            nested.scopes.own? (tree.push scope).2 name = some declared
            ↔ tree.own? scope name = none ∧ flat.scopes.own? scope name = some declared := by
  have pushed := wellFormed.push inside
  have fresh : tree.size < (tree.push scope).1.size := by
    rw [ScopeTree.push_size]
    exact Nat.lt_succ_self _
  obtain ⟨flat, parsed, active, run⟩ := exists_session wellFormed inside file source
  obtain ⟨_, next, trace, finished, reported⟩ := parseIn_eq_ok_iff.mp parsed
  obtain ⟨others, final, followed, outcomes, seen⟩ := trace.exists_of_lookup_eq wellFormed inside
    pushed fresh (ScopeTree.lookup_push wellFormed inside)
  have result : parseIn (tree.push scope).1 tree.size file source
      = .ok ⟨others, final, tree.size, flat.reports⟩ :=
    parseIn_eq_ok_iff.mpr ⟨rfl, next, followed, finished, reported⟩
  have otherRun := run_of_parseIn pushed fresh result
  have declarations : declaredBy others = declaredBy flat.attempts :=
    filterMap_outcome_congr outcomes Outcome.declared
  refine ⟨flat, _, parsed, result, ?_, rfl, rfl, ?_, ?_, ?_⟩
  · have view : Attempt.statement? = fun made => made.outcome.result.toOption := by
      funext made
      unfold Attempt.statement?
      cases made.outcome.result <;> rfl
    simp only [Session.tree, view]
    exact congrArg Module.mk (filterMap_outcome_congr outcomes fun outcome =>
      outcome.result.toOption)
  · intro name
    rw [Session.lookup, Session.lookup, active]
    exact seen name
  · intro index below
    rw [otherRun.grows.others index (Nat.ne_of_lt below), ScopeTree.push_getElem?_of_lt below]
  · intro name declared
    change final.own? tree.size name = some declared ↔ _
    rw [otherRun.own?_iff, run.own?_iff, declarations, ScopeTree.push_own?_self]
    constructor
    · intro either
      rcases either with impossible | ⟨member, rfl⟩
      · cases impossible
      · exact ⟨ScopeTree.own?_eq_none_of_not_mem (run.fresh member), .inr ⟨member, rfl⟩⟩
    · intro given
      obtain ⟨absent, either⟩ := given
      rcases either with bound | new
      · simp [absent] at bound
      · exact .inr new

theorem parseIn_push_inner
    : let tree := (ScopeTree.new.push ScopeTree.root).1
      let source := "let x = 1 let y = x; type t = q; z; y = x; let w: t = 2 3"
      (tree.WellFormed ∧ 1 < tree.size)
      ∧ ∃ flat nested, parseIn tree 1 none source = .ok flat
        ∧ parseIn (tree.push 1).1 (tree.push 1).2 none source = .ok nested
        ∧ nested.tree = flat.tree
        ∧ nested.errors = flat.errors
        ∧ nested.diagnostics = flat.diagnostics
        ∧ (∀ name, nested.lookup name = flat.lookup name)
        ∧ (∀ index < tree.size, nested.scopes.scopes[index]? = tree.scopes[index]?)
        ∧ ∀ name declared,
            nested.scopes.own? (tree.push 1).2 name = some declared
            ↔ tree.own? 1 name = none ∧ flat.scopes.own? 1 name = some declared :=
  ⟨by decide, parseIn_push (by decide) (by decide) none _⟩

end LetLang.Parse

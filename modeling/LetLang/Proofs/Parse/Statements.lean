import LetLang.Proofs.Parse.Reading

/-! What expressions and statements read when they are parsed with success: exactly the tokens
of a derivation whose names and numbers are right.
-/

namespace LetLang.Parse

open LetLang.Parse.Parser LetLang.Grammar

/-- Behind a name that ends an expression stands no equals sign, which would make it a target.
-/
def EndsBefore (value : Expr) (next : Cursor) : Prop :=
  ∀ name, value.leaf = .identifier name → next.current.kind ≠ .equals

/-- The tokens are an expression where the given names are visible, and it ends there. -/
structure ReadsExpr (names : Set String) (read : List Token) (value : Expr) (next : Cursor)
    : Prop where
  form : ExprForm read value
  visible : ∀ name ∈ value.references, name ∈ names
  finite : value.leaf.IsFinite
  ends : EndsBefore value next

section

variable {visible : Visibility} {names : Set String}

-----------------------------------------------------------------------------------------
-- Expressions
-----------------------------------------------------------------------------------------

theorem readsExpr_of_expressionFrom (decides : Decides visible names) {targets : List Link}
    {cursor next : Cursor} {result : Expr}
    (done : expressionFrom visible targets cursor = .done result next)
    : ∃ read value,
        cursor.Reads read next
        ∧ ReadsExpr names read value next
        ∧ result = value.wrap targets := by
  -- The induction follows the loop; a target that is collected is the next outer assignment.
  fun_induction expressionFrom visible targets cursor with
  | case1 targets cursor found middle first answer equals ih =>
      obtain ⟨target, reads, form, _⟩ := atom_done_iff.mp first
      obtain ⟨read, value, right, inner, rfl⟩ := ih done
      cases form with
      | identifier kind =>
          have mark := Cursor.reads_current middle (by simp [equals])
          refine ⟨_, _, reads.trans (mark.trans right), ?_, rfl⟩
          refine ⟨.assignment kind equals inner.form, ?_, ?_, ?_⟩
          · intro name member
            rcases List.mem_cons.mp member with rfl | deeper
            · rcases decides target.text with ⟨member, _⟩ | ⟨_, other⟩
              · exact member
              · simp [Token.name, other] at answer
            · exact inner.visible name deeper
          · simpa using inner.finite
          · intro name leaf
            exact inner.ends name (by simpa using leaf)
  | case2 targets cursor found middle first answer differs =>
      cases done
      obtain ⟨token, reads, form, finite⟩ := atom_done_iff.mp first
      refine ⟨_, _, reads, ⟨.atom form, ?_, finite, fun _ _ => differs⟩, rfl⟩
      intro name member
      obtain rfl := List.mem_singleton.mp member
      rcases decides found.text with ⟨member, _⟩ | ⟨_, other⟩
      · exact member
      · simp [other] at answer
  | case5 targets cursor leaf middle plain first =>
      cases done
      obtain ⟨token, reads, form, finite⟩ := atom_done_iff.mp first
      refine ⟨_, _, reads, ⟨.atom form, ?_, finite, ?_⟩, rfl⟩
      · intro name member
        cases leaf with
        | identifier found => exact absurd rfl (plain found)
        | number | boolean => cases member
      · intro name same
        subst same
        exact absurd rfl (plain name)
  | case3 | case4 | case6 | case7 => cases done

theorem expressionFrom_of_readsExpr (decides : Decides visible names) {targets : List Link}
    {cursor next : Cursor} {read : List Token} {value : Expr} (reads : cursor.Reads read next)
    (expr : ReadsExpr names read value next)
    : expressionFrom visible targets cursor = .done (value.wrap targets) next := by
  obtain ⟨form, seen, finite, ends⟩ := expr
  induction form generalizing cursor targets with
  | @atom token found leaf =>
      have first := atom_done_iff.mpr ⟨token, reads, leaf, finite⟩
      rw [expressionFrom]
      cases found with
      | identifier name =>
          have differs : next.current.kind ≠ .equals := ends name rfl
          have answer : visible name.text = .ok true := by
            rcases decides name.text with ⟨_, answer⟩ | ⟨absent, _⟩
            · exact answer
            · exact absurd (seen name.text (by simp [Expr.references, Atom.references])) absent
          split <;> simp_all
      | number location value => split <;> simp_all
      | boolean location value => split <;> simp_all
  | @assignment target mark tokens value kind equals right ih =>
      obtain ⟨middle, first, others⟩ := Cursor.reads_cons_iff.mp reads
      obtain ⟨behind, second, rest⟩ := Cursor.reads_cons_iff.mp others
      obtain ⟨rfl, rfl⟩ := second.current_of_kind
      have found := atom_done_iff.mpr ⟨target, first, .identifier kind, trivial⟩
      have answer : visible target.text = .ok true := by
        rcases decides target.text with ⟨_, answer⟩ | ⟨absent, _⟩
        · exact answer
        · exact absurd (seen target.text (by simp [Expr.references, Token.name])) absent
      have inner := @ih (⟨target.start, target.name⟩ :: targets) _ rest
        (fun name member => seen name (List.mem_cons_of_mem _ member)) (by simpa using finite)
        (fun name leaf => ends name (by simpa using leaf))
      rw [expressionFrom]
      split
      · next name reached again =>
          obtain ⟨same, rfl⟩ := Step.done.inj (found.symm.trans again)
          obtain rfl := Atom.identifier.inj same
          simp only [Token.name] at answer ⊢
          simp only [answer, equals, if_true]
          exact inner
      all_goals simp_all

/-- An expression is parsed if and only if its tokens lie ahead. -/
theorem expression_done_iff (decides : Decides visible names) {cursor next : Cursor}
    {value : Expr}
    : expression visible cursor = .done value next
      ↔ ∃ read, cursor.Reads read next ∧ ReadsExpr names read value next := by
  constructor
  · intro done
    obtain ⟨read, value, reads, expr, rfl⟩ := readsExpr_of_expressionFrom decides done
    exact ⟨read, reads, expr⟩
  · intro given
    obtain ⟨read, reads, expr⟩ := given
    exact expressionFrom_of_readsExpr decides reads expr

-----------------------------------------------------------------------------------------
-- Statements
-----------------------------------------------------------------------------------------

/-- A type name behind a colon is read if a colon stands there, and otherwise nothing is. -/
theorem ascription_done_iff (decides : Decides visible names) {cursor next : Cursor}
    {annotated : Option Identifier}
    : ascription visible cursor = .done annotated next
      ↔ (∃ divider ascribed, cursor.Reads [divider, ascribed] next
          ∧ divider.kind = .colon ∧ ascribed.kind = .identifier
          ∧ ascribed.text ∈ names ∧ annotated = some ascribed.name)
        ∨ (cursor.current.kind ≠ .colon ∧ next = cursor ∧ annotated = none) := by
  constructor
  · intro done
    obtain ⟨found, middle, accepted, done⟩ := bind_done_iff.mp done
    rw [accept_apply] at accepted
    split at accepted
    · next colon =>
        cases accepted
        simp only [if_true, bind_done_iff, pure_done_iff, name_done_iff,
          checkVisible_done_iff decides] at done
        obtain ⟨_, _, ⟨ascribed, second, kind, rfl⟩, _, _, ⟨member, rfl⟩, rfl, rfl⟩ := done
        have first := Cursor.reads_current cursor (by simp [colon])
        exact .inl ⟨_, ascribed, first.trans second, colon, kind, member, rfl⟩
    · next other =>
        cases accepted
        cases done
        exact .inr ⟨other, rfl, rfl⟩
  · intro either
    rcases either with ⟨divider, ascribed, reads, colon, kind, member, rfl⟩ | ⟨other, rfl, rfl⟩
    · obtain ⟨middle, first, second⟩ := Cursor.reads_cons_iff.mp reads
      obtain ⟨rfl, rfl⟩ := first.current_of_kind
      refine bind_done_iff.mpr ⟨true, _, by rw [accept_apply, if_pos colon], ?_⟩
      simp only [if_true, bind_done_iff, pure_done_iff, name_done_iff,
        checkVisible_done_iff decides]
      exact ⟨_, next, ⟨ascribed, second, kind, rfl⟩, (), next, ⟨member, rfl⟩, rfl, rfl⟩
    · exact bind_done_iff.mpr ⟨false, _, by rw [accept_apply, if_neg other], rfl⟩

/-- The tokens are a statement, without its semicolon, that can stand where the given names are
visible, and it ends there.
-/
structure ReadsStatement (names : Set String) (read : List Token) (statement : Statement)
    (next : Cursor) : Prop where
  form : StatementForm read statement
  admissible : statement.Admissible names
  ends : ∀ value, statement.value? = some value → EndsBefore value next

theorem readsStatement_of_binding (decides : Decides visible names) {cursor next : Cursor}
    (keyword : cursor.current.kind = .letKeyword) {declared : Declaration}
    (done : binding visible cursor.current.start cursor = .done declared next)
    : ∃ read, cursor.Reads read next ∧ ReadsStatement names read (.declaration declared) next := by
  have opening := Cursor.reads_current cursor (by simp [keyword])
  simp only [binding, bind_done_iff, pure_done_iff, name_done_iff, checkFree_done_iff decides,
    ascription_done_iff decides, expression_done_iff decides,
    expect_done_iff .equals (by simp)] at done
  obtain ⟨_, _, skipped, _, behindName, ⟨name, second, nameKind, rfl⟩, _, _, ⟨fresh, rfl⟩,
    annotated, behindType, ascribed, _, behindMark, ⟨mark, equals, markKind⟩, value, _,
    ⟨read, right, expr⟩, rfl, rfl⟩ := done
  cases skipped
  have free : ∀ other ∈ ({name.text} : Set String), other ∉ names := by
    intro other same
    rw [Set.mem_singleton_iff.mp same]
    exact fresh
  rcases ascribed with ⟨divider, typeName, types, colon, typeKind, member, rfl⟩
    | ⟨_, rfl, rfl⟩
  · refine ⟨_, opening.trans (second.trans (types.trans (equals.trans right))),
      .typedBinding keyword nameKind colon typeKind markKind expr.form, ⟨?_, free, ?_⟩, ?_⟩
    · intro other reference
      rcases List.mem_cons.mp reference with rfl | deeper
      · exact member
      · exact expr.visible other deeper
    · intro value found
      cases found
      exact expr.finite
    · intro value found
      cases found
      exact expr.ends
  · refine ⟨_, opening.trans (second.trans (equals.trans right)),
      .binding keyword nameKind markKind expr.form, ⟨expr.visible, free, ?_⟩, ?_⟩
    · intro value found
      cases found
      exact expr.finite
    · intro value found
      cases found
      exact expr.ends

theorem readsStatement_of_typeAlias (decides : Decides visible names) {cursor next : Cursor}
    (keyword : cursor.current.kind = .typeKeyword) {declared : Declaration}
    (done : typeAlias visible cursor.current.start cursor = .done declared next)
    : ∃ read, cursor.Reads read next ∧ ReadsStatement names read (.declaration declared) next := by
  have opening := Cursor.reads_current cursor (by simp [keyword])
  simp only [typeAlias, bind_done_iff, pure_done_iff, name_done_iff, checkFree_done_iff decides,
    expect_done_iff .equals (by simp)] at done
  obtain ⟨_, _, skipped, _, behindName, ⟨name, second, nameKind, rfl⟩, _, _, ⟨fresh, rfl⟩,
    _, behindMark, ⟨mark, equals, markKind⟩, _, _, ⟨aliased, right, aliasedKind, rfl⟩,
    rfl, rfl⟩ := done
  cases skipped
  refine ⟨_, opening.trans (second.trans (equals.trans right)),
    .typeAlias keyword nameKind markKind aliasedKind, ⟨?_, ?_, ?_⟩, ?_⟩
  · intro other refers
    cases refers
  · intro other same
    rw [Set.mem_singleton_iff.mp same]
    exact fresh
  · intro value found
    cases found
  · intro value found
    cases found

/-- A declaration is parsed behind its keyword if its tokens lie ahead. -/
theorem declaration_of_readsStatement (decides : Decides visible names) {cursor next : Cursor}
    {read : List Token} {declared : Declaration} (reads : cursor.Reads read next)
    (whole : ReadsStatement names read (.declaration declared) next)
    : cursor.current.kind = .letKeyword
        ∧ binding visible cursor.current.start cursor = .done declared next
      ∨ cursor.current.kind = .typeKeyword
        ∧ typeAlias visible cursor.current.start cursor = .done declared next := by
  obtain ⟨form, ⟨seen, fresh, finite⟩, ends⟩ := whole
  have free := fresh declared.name.text rfl
  cases form with
  | binding keyword name equals right =>
      obtain ⟨_, one, fromName⟩ := Cursor.reads_cons_iff.mp reads
      obtain ⟨behindName, two, fromMark⟩ := Cursor.reads_cons_iff.mp fromName
      obtain ⟨behindMark, three, fromRight⟩ := Cursor.reads_cons_iff.mp fromMark
      obtain ⟨rfl, rfl⟩ := one.current_of_kind
      refine .inl ⟨keyword, ?_⟩
      simp only [Parse.binding, bind_done_iff, pure_done_iff, name_done_iff,
        checkFree_done_iff decides, ascription_done_iff decides, expression_done_iff decides,
        expect_done_iff .equals (by simp)]
      have plain : behindName.current.kind ≠ .colon := by
        rw [three.current_of_kind.1, equals]
        simp
      exact ⟨(), _, rfl, _, behindName, ⟨_, two, name, rfl⟩, (), behindName, ⟨free, rfl⟩,
        none, behindName, .inr ⟨plain, rfl, rfl⟩, (), behindMark, ⟨_, three, equals⟩, _, next,
        ⟨_, fromRight, right, seen, finite _ rfl, ends _ rfl⟩, rfl, rfl⟩
  | @typedBinding _ _ _ ascribed _ _ _ keyword name colon typeName equals right =>
      obtain ⟨_, one, fromName⟩ := Cursor.reads_cons_iff.mp reads
      obtain ⟨behindName, two, fromColon⟩ := Cursor.reads_cons_iff.mp fromName
      obtain ⟨behindColon, three, fromType⟩ := Cursor.reads_cons_iff.mp fromColon
      obtain ⟨behindType, four, fromMark⟩ := Cursor.reads_cons_iff.mp fromType
      obtain ⟨behindMark, five, fromRight⟩ := Cursor.reads_cons_iff.mp fromMark
      obtain ⟨rfl, rfl⟩ := one.current_of_kind
      refine .inl ⟨keyword, ?_⟩
      simp only [Parse.binding, bind_done_iff, pure_done_iff, name_done_iff,
        checkFree_done_iff decides, ascription_done_iff decides, expression_done_iff decides,
        expect_done_iff .equals (by simp)]
      have member : ascribed.text ∈ names := seen ascribed.text (.head _)
      have deeper : ∀ name ∈ Expr.references _, name ∈ names :=
        fun other reference => seen other (.tail _ reference)
      exact ⟨(), _, rfl, _, behindName, ⟨_, two, name, rfl⟩, (), behindName, ⟨free, rfl⟩,
        some ascribed.name, behindType,
        .inl ⟨_, _, three.trans four, colon, typeName, member, rfl⟩, (), behindMark,
        ⟨_, five, equals⟩, _, next, ⟨_, fromRight, right, deeper, finite _ rfl, ends _ rfl⟩,
        rfl, rfl⟩
  | typeAlias keyword name equals right =>
      obtain ⟨_, one, fromName⟩ := Cursor.reads_cons_iff.mp reads
      obtain ⟨behindName, two, fromMark⟩ := Cursor.reads_cons_iff.mp fromName
      obtain ⟨behindMark, three, fromRight⟩ := Cursor.reads_cons_iff.mp fromMark
      obtain ⟨rfl, rfl⟩ := one.current_of_kind
      refine .inr ⟨keyword, ?_⟩
      simp only [Parse.typeAlias, bind_done_iff, pure_done_iff, name_done_iff,
        checkFree_done_iff decides, expect_done_iff .equals (by simp)]
      exact ⟨(), _, rfl, _, behindName, ⟨_, two, name, rfl⟩, (), behindName, ⟨free, rfl⟩,
        (), behindMark, ⟨_, three, equals⟩, _, next, ⟨_, fromRight, right, rfl⟩, rfl, rfl⟩

/-- Which parser reads a statement, by the kind of the current token. -/
theorem statementBody_apply (visible : Visibility) (cursor : Cursor)
    : statementBody visible cursor
      = match cursor.current.kind with
        | .letKeyword =>
            (.declaration <$> binding visible cursor.current.start : Parser Statement) cursor
        | .typeKeyword =>
            (.declaration <$> typeAlias visible cursor.current.start : Parser Statement) cursor
        | _ =>
            (.expression cursor.current.start <$> expression visible : Parser Statement) cursor := by
  simp only [statementBody, bind_apply, current]
  cases cursor.current.kind <;> rfl

/-- What a statement comes to, by the kind of the current token. -/
theorem statementBody_done_apply {cursor next : Cursor} {statement : Statement}
    : statementBody visible cursor = .done statement next
      ↔ match cursor.current.kind with
        | .letKeyword => ∃ declared, statement = .declaration declared
            ∧ binding visible cursor.current.start cursor = .done declared next
        | .typeKeyword => ∃ declared, statement = .declaration declared
            ∧ typeAlias visible cursor.current.start cursor = .done declared next
        | _ => ∃ value, statement = .expression cursor.current.start value
            ∧ expression visible cursor = .done value next := by
  simp only [statementBody, bind_apply, current]
  cases cursor.current.kind <;> exact bind_pure_done_iff

/-- A statement is parsed if and only if its tokens lie ahead. -/
theorem statementBody_done_iff (decides : Decides visible names) {cursor next : Cursor}
    {statement : Statement}
    : statementBody visible cursor = .done statement next
      ↔ ∃ read, cursor.Reads read next ∧ ReadsStatement names read statement next := by
  rw [statementBody_done_apply]
  constructor
  · intro done
    split at done
    · next keyword =>
        obtain ⟨declared, rfl, done⟩ := done
        exact readsStatement_of_binding decides keyword done
    · next keyword =>
        obtain ⟨declared, rfl, done⟩ := done
        exact readsStatement_of_typeAlias decides keyword done
    · obtain ⟨value, rfl, done⟩ := done
      obtain ⟨read, reads, expr⟩ := (expression_done_iff decides).mp done
      cases read with
      | nil => cases expr.form
      | cons first read =>
          obtain ⟨_, one, _⟩ := Cursor.reads_cons_iff.mp reads
          obtain ⟨rfl, rfl⟩ := one.current_of_kind
          refine ⟨_, reads, .expression expr.form, ⟨expr.visible, ?_, ?_⟩, ?_⟩
          · intro name declared
            cases declared
          · intro value found
            cases found
            exact expr.finite
          · intro value found
            cases found
            exact expr.ends
  · intro given
    obtain ⟨read, reads, whole⟩ := given
    cases statement with
    | declaration declared =>
        rcases declaration_of_readsStatement decides reads whole with
          ⟨keyword, done⟩ | ⟨keyword, done⟩
        · rw [keyword]
          exact ⟨declared, rfl, done⟩
        · rw [keyword]
          exact ⟨declared, rfl, done⟩
    | expression location value =>
        obtain ⟨form, admissible, ends⟩ := whole
        cases form with
        | expression whole =>
            obtain ⟨_, one, _⟩ := Cursor.reads_cons_iff.mp reads
            obtain ⟨rfl, rfl⟩ := one.current_of_kind
            have done := (expression_done_iff decides).mpr
              ⟨_, reads, whole, admissible.visible, admissible.finite _ rfl, ends _ rfl⟩
            rcases whole.first_kind with kind | kind | kind <;> rw [kind] <;>
              exact ⟨value, rfl, done⟩

end

end LetLang.Parse

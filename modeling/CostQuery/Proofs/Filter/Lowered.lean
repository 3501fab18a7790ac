import CostQuery.Filter.Lowering
import CostQuery.Proofs.Filter.Meaning

/-! Which tests a list of conditions becomes. -/

namespace CostQuery.Predicate
variable {p t : Predicate} {parts : List Predicate} {c : Column} {cond : Condition}

theorem mem_tests_any (h : t ∈ (any parts).tests) : t = .never ∨ ∃ p ∈ parts, t ∈ p.tests := by
  unfold any at h
  split at h
  · exact Or.inl (by simpa [tests] using h)
  · exact Or.inr ⟨_, List.mem_singleton_self _, h⟩
  · exact Or.inr (mem_tests_or.mp h)

theorem mem_tests_of_conjuncts {q : Predicate} (hq : q ∈ p.conjuncts) (h : t ∈ q.tests) :
    t ∈ p.tests := by
  cases p with
  | and parts => exact mem_tests_and.mpr ⟨q, hq, h⟩
  | isNull | isNotNull | compare | regex | contains | oneOf | datetime | timediff | or | never =>
    obtain rfl := List.mem_singleton.mp hq
    exact h

theorem mem_tests_all (hp : all? parts = some p) (h : t ∈ p.tests) :
    ∃ q ∈ parts, t ∈ q.tests := by
  have hflat : ∀ q ∈ parts.flatMap conjuncts, t ∈ q.tests → ∃ q ∈ parts, t ∈ q.tests := by
    intro q hq ht
    obtain ⟨p, hp, hq⟩ := List.mem_flatMap.mp hq
    exact ⟨p, hp, mem_tests_of_conjuncts hq ht⟩
  rw [all?] at hp
  split at hp
  · cases hp
  · next q hone =>
    obtain rfl := Option.some.inj hp
    exact hflat q (by simp [hone]) h
  · obtain rfl := Option.some.inj hp
    obtain ⟨q, hq, ht⟩ := mem_tests_and.mp h
    exact hflat q hq ht

/-- Tests of one column, joined in one way. -/
inductive OneColumn (c : Column) : Predicate → Prop
  | test {p : Predicate} (h : p.column? = some c) : OneColumn c p
  | and {parts : List Predicate} (hne : parts ≠ []) (h : ∀ p ∈ parts, p.column? = some c) :
    OneColumn c (.and parts)
  | or {parts : List Predicate} (hne : parts ≠ []) (h : ∀ p ∈ parts, p.column? = some c) :
    OneColumn c (.or parts)

theorem isTest_of_column (h : p.column? = some c) : p.isTest = true := by
  cases p <;> first | rfl | cases h

theorem OneColumn.column_of_tests (h : OneColumn c p) {c' : Column} (ht : t ∈ p.tests)
    (hc : t.column? = some c') : c' = c := by
  have htest : ∀ {p : Predicate}, p.column? = some c → t ∈ p.tests → c' = c := by
    intro p hp ht
    rw [tests_of_isTest (isTest_of_column hp), List.mem_singleton] at ht
    exact Option.some.inj (hc.symm.trans (ht ▸ hp))
  cases h with
  | test hp => exact htest hp ht
  | and _ hparts =>
    obtain ⟨q, hq, ht⟩ := mem_tests_and.mp ht
    exact htest (hparts q hq) ht
  | or _ hparts =>
    obtain ⟨q, hq, ht⟩ := mem_tests_or.mp ht
    exact htest (hparts q hq) ht

theorem conjuncts_of_isTest (h : p.isTest = true) : p.conjuncts = [p] := by
  cases p <;> first | rfl | simp [isTest] at h

theorem oneColumn_equality (negated : Bool) (v : Literal) : OneColumn c (equality c negated v) := by
  unfold equality
  split <;> exact .test rfl

theorem oneColumn_membership (negated : Bool) (vs : List Literal) :
    membership c negated vs = .never ∨ OneColumn c (membership c negated vs) := by
  unfold membership
  split
  · exact Or.inl rfl
  · exact Or.inr (.test rfl)
  · exact Or.inr (.test rfl)
  · exact Or.inr (.test rfl)
  · refine Or.inr (.or (List.cons_ne_nil _ _) ?_)
    simp [column?]
  · refine Or.inr (.and (List.cons_ne_nil _ _) ?_)
    simp [column?]

theorem oneColumn_any (h : ∀ p ∈ parts, p.column? = some c) :
    any parts = .never ∨ OneColumn c (any parts) := by
  unfold any
  split
  · exact Or.inl rfl
  · exact Or.inr (.test (h _ (List.mem_singleton_self _)))
  · next hne _ => exact Or.inr (.or hne h)

theorem oneColumn_all (h : ∀ p ∈ parts, p.column? = some c) (hp : all? parts = some p) :
    OneColumn c p := by
  have hflat : parts.flatMap conjuncts = parts := by
    rw [List.flatMap_congr fun q hq => conjuncts_of_isTest (isTest_of_column (h q hq))]
    simp
  rw [all?, hflat] at hp
  split at hp
  · cases hp
  · obtain rfl := Option.some.inj hp
    exact .test (h _ (List.mem_singleton_self _))
  · next hne _ =>
    obtain rfl := Option.some.inj hp
    exact .and hne h

theorem oneColumn_each {α : Type} {f : α → Predicate} {as : List α}
    (h : ∀ a, (f a).column? = some c) : ∀ p ∈ as.map f, p.column? = some c := by
  intro p hp
  obtain ⟨a, -, rfl⟩ := List.mem_map.mp hp
  exact h a

/-- A condition becomes tests of its column, unless nothing can meet it. -/
theorem oneColumn_ofCondition (h : ofCondition? cond = some p) :
    p = .never ∨ OneColumn (Column.ofKey cond.key) p := by
  have known : ∀ {v : Literal} {q : Predicate},
      (if v.isNull = true then none else some q) = some p →
      q.column? = some (Column.ofKey cond.key) →
        p = .never ∨ OneColumn (Column.ofKey cond.key) p := by
    intro v q hq hc
    split at hq
    · cases hq
    · obtain rfl := Option.some.inj hq
      exact Or.inr (.test hc)
  obtain ⟨key, operator, operand⟩ := cond
  cases operator with
  | eq | not =>
    cases operand with
    | scalar v => exact Or.inr (Option.some.inj h ▸ oneColumn_equality _ v)
    | list | flag | relative => cases h
  | lt | lte | gt | gte | regex | contain | notContain =>
    cases operand with
    | scalar v => exact known h rfl
    | list | flag | relative => cases h
  | «exists» =>
    cases operand with
    | flag b => cases b <;> exact Or.inr (Option.some.inj h ▸ .test rfl)
    | scalar | list | relative => cases h
  | «in» | notIn =>
    cases operand with
    | list vs => exact Option.some.inj h ▸ oneColumn_membership _ vs
    | scalar | flag | relative => cases h
  | containIn | regexIn =>
    cases operand with
    | list vs => exact Option.some.inj h ▸ oneColumn_any (oneColumn_each fun _ => rfl)
    | scalar | flag | relative => cases h
  | notContainIn =>
    cases operand with
    | list vs => exact Or.inr (oneColumn_all (oneColumn_each fun _ => rfl) h)
    | scalar | flag | relative => cases h
  | datetimeGt | datetimeGte | datetimeLt | datetimeLte =>
    cases operand with
    | scalar v =>
      cases v with
      | text t => exact Or.inr (Option.some.inj h ▸ .test rfl)
      | null | bool | int | float => cases h
    | list | flag | relative => cases h
  | timediffGt | timediffGte | timediffLt | timediffLte =>
    cases operand with
    | relative time => exact Or.inr (Option.some.inj h ▸ .test rfl)
    | scalar | list | flag => cases h

/-- The columns of its tests are the one that its key names. -/
theorem column_of_ofCondition (h : ofCondition? cond = some p) (ht : t ∈ p.tests)
    (hc : t.column? = some c) : c = Column.ofKey cond.key := by
  rcases oneColumn_ofCondition h with rfl | hcolumn
  · obtain rfl := List.mem_singleton.mp ht
    cases hc
  · exact hcolumn.column_of_tests ht hc

/-- The columns that a lowered filter tests are those of its conditions. -/
theorem condition_of_ofFilters {filter filterOr : List Condition}
    (hp : ofFilters? filter filterOr = some p) (ht : t ∈ p.tests) (hc : t.column? = some c) :
    ∃ cond ∈ filter ++ filterOr, c = Column.ofKey cond.key := by
  have of : ∀ conds ⊆ filter ++ filterOr, ∀ q ∈ conds.filterMap ofCondition?, t ∈ q.tests →
      ∃ cond ∈ filter ++ filterOr, c = Column.ofKey cond.key := by
    intro conds hsub q hq ht
    obtain ⟨cond, hmem, hcond⟩ := List.mem_filterMap.mp hq
    exact ⟨cond, hsub hmem, column_of_ofCondition hcond ht hc⟩
  obtain ⟨q, hq, ht⟩ := mem_tests_all hp ht
  rcases List.mem_append.mp hq with hq | hq
  · exact of filter (List.subset_append_left _ _) q hq ht
  · rw [Option.mem_toList, alternatives?] at hq
    split at hq
    · cases hq
    · obtain rfl := Option.mem_some_iff.mp hq
      rcases mem_tests_any ht with rfl | ⟨q, hq, ht⟩
      · cases hc
      · exact of filterOr (List.subset_append_right _ _) q hq ht

/-- The columns that a lowered filter tests were read from keys. -/
theorem column_of_ofFilters {filter filterOr : List Condition}
    (hp : ofFilters? filter filterOr = some p) (ht : t ∈ p.tests) (hc : t.column? = some c) :
    ∃ key, c = Column.ofKey key := by
  obtain ⟨cond, -, hcond⟩ := condition_of_ofFilters hp ht hc
  exact ⟨cond.key, hcond⟩

end CostQuery.Predicate

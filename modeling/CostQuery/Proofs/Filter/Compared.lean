import CostQuery.Proofs.Filter.Lowered
import CostQuery.Proofs.Query.Checked
import CostQuery.Plan.Analyze

/-! The scalars that conditions compare columns with, from requests to the tests of predicates. -/

namespace CostQuery

/-- Texts, truth values, and whole numbers of 64 bits, signed or not. -/
def Json.isExact : Json → Bool
  | .bool _ | .str _ => true
  | .num (.int n) => isWord n
  | .null | .num (.float _) | .arr _ | .obj _ => false

/-- A whole number above the signed ones of 64 bits. -/
def Json.IsBeyond (j : Json) : Prop := ∃ n, j = .int n ∧ Nat.pow 2 63 ≤ n

/-- Texts, truth values and whole numbers. -/
def Literal.isExact : Literal → Bool
  | .bool _ | .int _ | .text _ => true
  | .null | .float _ => false

namespace Literal
variable {j : Json} {v : Literal}

theorem toJson_float_ne (x : Float) (n : Int) : (float x).toJson ≠ .int n := by
  rw [toJson, Json.ofFloat, Json.int]
  split <;> simp

/-- Of texts, truth values and whole numbers only numbers above the signed ones are lost: what is
read instead is written as no whole number. -/
theorem exact_iff (h : j.isExact = true) (hv : ofJson? j = some v) :
    v.isNull = false ∧ (v.isExact = true ↔ ¬ j.IsBeyond) ∧ (v.toJson = j ↔ ¬ j.IsBeyond) := by
  have within (hj : ∀ n, j ≠ .int n) : ¬ j.IsBeyond := fun ⟨n, hn, _⟩ => hj n hn
  cases j with
  | null | arr | obj => cases h
  | bool b =>
    obtain rfl := Option.some.inj hv
    exact ⟨rfl, iff_of_true rfl (within nofun), iff_of_true rfl (within nofun)⟩
  | str s =>
    obtain rfl := Option.some.inj hv
    exact ⟨rfl, iff_of_true rfl (within nofun), iff_of_true rfl (within nofun)⟩
  | num n =>
    cases n with
    | float => cases h
    | int n =>
      have hword : isWord n = true := h
      rw [ofJson?] at hv
      obtain rfl := Option.some.inj hv
      by_cases hsigned : isSignedWord n = true
      · have hwithin : ¬ (Json.num (.int n)).IsBeyond := by
          rintro ⟨m, hm, hge⟩
          obtain rfl := Number.int.inj (Json.num.inj hm)
          simp only [isSignedWord, decide_eq_true_eq] at hsigned
          omega
        rw [if_pos hsigned]
        exact ⟨rfl, iff_of_true rfl hwithin, iff_of_true rfl hwithin⟩
      · have hbeyond : (Json.num (.int n)).IsBeyond := by
          refine ⟨n, rfl, ?_⟩
          simp only [isWord, isSignedWord, decide_eq_true_eq] at hword hsigned
          omega
        rw [if_neg hsigned]
        exact ⟨rfl, iff_of_false nofun (not_not_intro hbeyond),
          iff_of_false (toJson_float_ne _ n) (not_not_intro hbeyond)⟩

theorem exists_of_exact (h : j.isExact = true) : ∃ v, ofJson? j = some v := by
  cases j with
  | null | arr | obj => cases h
  | bool | str => exact ⟨_, rfl⟩
  | num n => cases n <;> exact ⟨_, rfl⟩

end Literal

/-- Anything but a list stands for the list of it alone. -/
def Json.listed : Json → List Json
  | .arr items => items
  | v => [v]

/-- The scalars in a value with which an operator compares a column. -/
def Operator.compared (op : Operator) (value : Json) : List Json :=
  match op with
  | .eq | .not | .lt | .lte | .gt | .gte => [value]
  | .in | .notIn => value.listed
  | .regex | .exists | .contain | .notContain | .containIn | .notContainIn | .regexIn
  | .datetimeGt | .datetimeGte | .datetimeLt | .datetimeLte
  | .timediffGt | .timediffGte | .timediffLt | .timediffLte => []

/-- The one that is named, or equality. -/
def Request.Condition.operator? (c : Request.Condition) : Option Operator :=
  Operator.ofName? (c.operator.getD "eq")

namespace Predicate
variable {p q t : Predicate} {parts : List Predicate} {c : Column} {v : Literal}

/-- The test in which an operator compares a column with a value. -/
inductive Compares (c : Column) (v : Literal) : Operator → Predicate → Prop
  | eq : Compares c v .eq (.compare c .eq v)
  | not : Compares c v .not (.compare c .notEq v)
  | lt : Compares c v .lt (.compare c .lt v)
  | lte : Compares c v .lte (.compare c .lte v)
  | gt : Compares c v .gt (.compare c .gt v)
  | gte : Compares c v .gte (.compare c .gte v)
  | «in» {vs : List Literal} (h : v ∈ vs) : Compares c v .in (.oneOf c vs false)
  | notIn {vs : List Literal} (h : v ∈ vs) : Compares c v .notIn (.oneOf c vs true)

theorem Compares.isTest {op : Operator} (h : Compares c v op t) : t.isTest = true := by
  cases h <;> rfl

theorem equality_of_known (c : Column) (negated : Bool) (hv : v.isNull = false) :
    equality c negated v = .compare c (if negated then .notEq else .eq) v := by
  cases negated <;> simp [equality, hv]

theorem mem_tests_membership (c : Column) (negated : Bool) {vs : List Literal} (hmem : v ∈ vs)
    (hv : v.isNull = false) :
    .oneOf c (vs.filter (!·.isNull)) negated ∈ (membership c negated vs).tests := by
  have hknown : v ∈ vs.filter (!·.isNull) := List.mem_filter.mpr ⟨hmem, by simp [hv]⟩
  unfold membership
  split
  · next h _ => exact absurd (h ▸ hknown) List.not_mem_nil
  · next h _ => exact absurd (h ▸ hknown) List.not_mem_nil
  · next h _ => exact absurd (h ▸ hknown) List.not_mem_nil
  · exact List.mem_singleton_self _
  · exact mem_tests_or.mpr ⟨_, List.mem_cons_self, List.mem_singleton_self _⟩
  · exact mem_tests_and.mpr ⟨_, List.mem_cons_self, List.mem_singleton_self _⟩

/-! Conditions as they are checked. -/

section
variable {operand : Operand} {value j : Json} (hv : Literal.ofJson? j = some v)
include hv

theorem of_ofScalar (h : Operand.ofScalar j = .ok operand) : operand = .scalar v := by
  rw [Operand.ofScalar, hv] at h
  exact (Except.ok.inj h).symm

theorem mem_literals {items : List Json} {vs : List Literal}
    (h : Operand.literals items = .ok vs) (hmem : j ∈ items) : v ∈ vs := by
  induction items generalizing vs with
  | nil => cases hmem
  | cons item rest ih =>
    rw [Operand.literals] at h
    split at h
    · next l hl =>
      obtain ⟨ls, hls, rfl⟩ := map_ok.mp h
      rcases List.mem_cons.mp hmem with rfl | hmem
      · obtain rfl := Option.some.inj (hv.symm.trans hl)
        exact List.mem_cons_self
      · exact List.mem_cons_of_mem _ (ih hls hmem)
    · cases h

theorem of_ofList (hmem : j ∈ value.listed) (h : Operand.ofList value = .ok operand) :
    ∃ vs, operand = .list vs ∧ v ∈ vs := by
  rw [Operand.ofList.eq_def] at h
  split at h
  · obtain ⟨vs, hvs, rfl⟩ := map_ok.mp h
    exact ⟨vs, rfl, mem_literals hv hvs hmem⟩
  · next hscalar =>
    have hself : value.listed = [value] := by
      cases value with
      | arr items => exact absurd rfl (hscalar items)
      | null | bool | num | str | obj => rfl
    rw [hself, List.mem_singleton] at hmem
    obtain rfl := hmem
    rw [hv] at h
    exact ⟨[v], (Except.ok.inj h).symm, List.mem_singleton_self v⟩

/-- A value that is not null is compared with, in one of the tests of its condition. -/
theorem exists_compares {r : Request.Condition} {cond : Condition} {op : Operator}
    (h : Condition.ofRequest r = .ok cond) (hop : r.operator? = some op)
    (hmem : j ∈ op.compared r.value) (hknown : v.isNull = false) :
    ∃ p t, ofCondition? cond = some p ∧ t ∈ p.tests ∧ Compares (Column.ofKey r.key) v op t := by
  rw [Condition.ofRequest] at h
  split at h
  · cases h
  · simp only [bind_ok, pure_ok] at h
    obtain ⟨named, hnamed, operand, hoperand, rfl⟩ := h
    obtain rfl : named = op := by
      rw [Request.Condition.operator?] at hop
      rw [hop] at hnamed
      exact (Except.ok.inj hnamed).symm
    have hread := mapError_ok hoperand
    cases named with
    | eq | not =>
      obtain rfl := List.mem_singleton.mp hmem
      obtain rfl := of_ofScalar hv hread
      refine ⟨_, _, rfl, ?_, by constructor⟩
      rw [equality_of_known _ _ hknown]
      exact List.mem_singleton_self _
    | lt | lte | gt | gte =>
      obtain rfl := List.mem_singleton.mp hmem
      obtain rfl := of_ofScalar hv hread
      exact ⟨.compare (Column.ofKey r.key) _ v, _, if_neg (by simp [hknown]),
        List.mem_singleton_self _, by constructor⟩
    | «in» | notIn =>
      obtain ⟨vs, rfl, hvs⟩ := of_ofList hv hmem hread
      have hkept : v ∈ vs.filter (!·.isNull) := List.mem_filter.mpr ⟨hvs, by simp [hknown]⟩
      refine ⟨_, _, rfl, mem_tests_membership _ _ hvs hknown, ?_⟩
      constructor
      exact hkept
    | regex | «exists» | contain | notContain | containIn | notContainIn | regexIn
    | datetimeGt | datetimeGte | datetimeLt | datetimeLte
    | timediffGt | timediffGte | timediffLt | timediffLte => cases hmem

end

/-! Predicates as they are put together. -/

theorem exists_conjunct (h : t ∈ p.tests) : ∃ q ∈ p.conjuncts, t ∈ q.tests := by
  cases p with
  | and parts => exact mem_tests_and.mp h
  | isNull | isNotNull | compare | regex | contains | oneOf | datetime | timediff | or | never =>
    exact ⟨_, List.mem_singleton_self _, h⟩

theorem exists_all (hq : q ∈ parts) (ht : t ∈ q.tests) :
    ∃ p, all? parts = some p ∧ t ∈ p.tests := by
  obtain ⟨part, hpart, ht⟩ := exists_conjunct ht
  have hflat : part ∈ parts.flatMap conjuncts := List.mem_flatMap.mpr ⟨q, hq, hpart⟩
  rw [all?]
  split
  · next hnil => exact absurd (hnil ▸ hflat) List.not_mem_nil
  · next p hone =>
    obtain rfl := List.mem_singleton.mp (hone ▸ hflat)
    exact ⟨part, rfl, ht⟩
  · exact ⟨_, rfl, mem_tests_and.mpr ⟨part, hflat, ht⟩⟩

theorem tests_any (hq : q ∈ parts) (ht : t ∈ q.tests) : t ∈ (any parts).tests := by
  unfold any
  split
  · cases hq
  · obtain rfl := List.mem_singleton.mp hq
    exact ht
  · exact mem_tests_or.mpr ⟨q, hq, ht⟩

/-- The tests of a condition are tests of the filter. -/
theorem exists_ofFilters {filter filterOr : List Condition} {cond : Condition}
    (hcond : cond ∈ filter ++ filterOr) (hp : ofCondition? cond = some p) (ht : t ∈ p.tests) :
    ∃ whole, ofFilters? filter filterOr = some whole ∧ t ∈ whole.tests := by
  rcases List.mem_append.mp hcond with hcond | hcond
  · exact exists_all
      (List.mem_append_left _ (List.mem_filterMap.mpr ⟨cond, hcond, hp⟩)) ht
  · have hpart : p ∈ filterOr.filterMap ofCondition? := List.mem_filterMap.mpr ⟨cond, hcond, hp⟩
    have halternatives : alternatives? filterOr = some (any (filterOr.filterMap ofCondition?)) := by
      rw [alternatives?]
      split
      · next hnil => exact absurd (hnil ▸ hpart) List.not_mem_nil
      · rfl
    exact exists_all (List.mem_append_right _ (Option.mem_toList.mpr halternatives))
      (tests_any hpart ht)

end Predicate

/-- The checked conditions are those of the request, one by one. -/
theorem GivenBy.exists_condition {r : Request} {filter filterOr : List Condition}
    {select : List (String × SelectExpr)} (h : GivenBy r filter filterOr select)
    {given : Request.Condition} (hgiven : given ∈ r.filter ++ r.filterOr) :
    ∃ cond ∈ filter ++ filterOr, Condition.ofRequest given = .ok cond := by
  rcases List.mem_append.mp hgiven with hgiven | hgiven
  · obtain ⟨cond, hcond, hread⟩ := exists_of_forall₂ (mapM_ok h.filter) hgiven
    exact ⟨cond, List.mem_append_left _ hcond, hread⟩
  · obtain ⟨cond, hcond, hread⟩ := exists_of_forall₂ (mapM_ok h.filterOr) hgiven
    exact ⟨cond, List.mem_append_right _ hcond, hread⟩

/-- Filters of a request test the columns of its conditions against the values that they give. -/
theorem GivenBy.exists_compares {r : Request} {filter filterOr : List Condition}
    {select : List (String × SelectExpr)} (h : GivenBy r filter filterOr select)
    {given : Request.Condition} (hgiven : given ∈ r.filter ++ r.filterOr) {op : Operator}
    (hop : given.operator? = some op) {j : Json} (hj : j ∈ op.compared given.value) {v : Literal}
    (hv : Literal.ofJson? j = some v) (hknown : v.isNull = false) :
    ∃ whole t, Predicate.ofFilters? filter filterOr = some whole ∧ t ∈ whole.tests ∧
      Predicate.Compares (Column.ofKey given.key) v op t := by
  obtain ⟨cond, hcond, hread⟩ := h.exists_condition hgiven
  obtain ⟨p, t, hp, ht, hcompares⟩ := Predicate.exists_compares hv hread hop hj hknown
  obtain ⟨whole, hwhole, ht⟩ := Predicate.exists_ofFilters hcond hp ht
  exact ⟨whole, t, hwhole, ht, hcompares⟩

theorem AnalyzeQuery.exists_predicate_test {q : AnalyzeQuery} {whole t : Predicate}
    (hwhole : Predicate.ofFilters? q.filter q.filterOr = some whole) (ht : t ∈ whole.tests) :
    ∃ p, q.predicate? = some p ∧ t ∈ p.tests :=
  Predicate.exists_all (List.mem_append_right _ (Option.mem_toList.mpr hwhole)) ht

end CostQuery

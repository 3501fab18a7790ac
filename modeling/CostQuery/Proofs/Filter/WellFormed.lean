import CostQuery.Plan.Search
import CostQuery.Proofs.Filter.Lowered
import CostQuery.Proofs.Plan.Stages

/-! The form of predicates: nothing is joined that is not two things at least, and null is nowhere
but in tests of its own. -/

namespace CostQuery

/-- The values that a condition compares with. -/
def Operand.values : Operand → List Literal
  | .scalar v => [v]
  | .list vs => vs
  | .flag _ | .relative _ => []

/-- One of its values, and not null, is looked for as a text in its column. -/
def Condition.LooksFor (cond : Condition) (c : Column) (text : String) : Prop :=
  c = Column.ofKey cond.key ∧ ∃ v ∈ cond.operand.values, v.isNull = false ∧ text = v.toText

def Comparison.orderings : List Comparison := [.lt, .lte, .gt, .gte]

namespace Predicate
variable {conds : List Condition} {p : Predicate} {parts : List Predicate} {c : Column}

def IsAnd (p : Predicate) : Prop := ∃ parts, p = .and parts

/-- Predicates as the compilers expect them, with texts from the conditions. -/
inductive WellFormed (conds : List Condition) : Predicate → Prop
  | isNull (c : Column) : WellFormed conds (.isNull c)
  | isNotNull (c : Column) : WellFormed conds (.isNotNull c)
  | compare (c : Column) (op : Comparison) {v : Literal} (known : v.isNull = false) :
      WellFormed conds (.compare c op v)
  | regex {c : Column} {pattern : String} (given : ∃ cond ∈ conds, cond.LooksFor c pattern) :
      WellFormed conds (.regex c pattern)
  | contains {c : Column} {text : String} (negated : Bool)
      (given : ∃ cond ∈ conds, cond.LooksFor c text) : WellFormed conds (.contains c text negated)
  | oneOf (c : Column) {vs : List Literal} (negated : Bool) (nonempty : vs ≠ [])
      (known : ∀ v ∈ vs, v.isNull = false) : WellFormed conds (.oneOf c vs negated)
  | datetime (c : Column) {op : Comparison} (text : String) (ordering : op ∈ Comparison.orderings) :
      WellFormed conds (.datetime c op text)
  | timediff (c : Column) {op : Comparison} (t : RelativeTime)
      (ordering : op ∈ Comparison.orderings) : WellFormed conds (.timediff c op t)
  | and {parts : List Predicate} (many : 2 ≤ parts.length) (flat : ∀ p ∈ parts, ¬ p.IsAnd)
      (formed : ∀ p ∈ parts, WellFormed conds p) : WellFormed conds (.and parts)
  | or {parts : List Predicate} (many : 2 ≤ parts.length)
      (formed : ∀ p ∈ parts, WellFormed conds p) : WellFormed conds (.or parts)
  | never : WellFormed conds .never

theorem forall_mem_pair {α : Type} {P : α → Prop} {a b : α} (ha : P a) (hb : P b) :
    ∀ x ∈ [a, b], P x :=
  List.forall_mem_cons.mpr ⟨ha, List.forall_mem_singleton.mpr hb⟩

theorem two_le_length {α : Type} {as : List α} (hnil : as ≠ []) (hone : ∀ a, as ≠ [a]) :
    2 ≤ as.length := by
  match as with
  | [] => exact absurd rfl hnil
  | [a] => exact absurd rfl (hone a)
  | _ :: _ :: _ => exact Nat.le_add_left _ _

/-- One level is all that there is to flatten: the parts of a conjunction are none. -/
theorem WellFormed.of_conjuncts (h : p.WellFormed conds) {q : Predicate} (hq : q ∈ p.conjuncts) :
    q.WellFormed conds ∧ ¬ q.IsAnd := by
  cases h with
  | and _ flat formed => exact ⟨formed q hq, flat q hq⟩
  | isNull | isNotNull | compare | regex | contains | oneOf | datetime | timediff | or | never =>
    obtain rfl := List.mem_singleton.mp hq
    refine ⟨by constructor <;> assumption, ?_⟩
    rintro ⟨parts, heq⟩
    cases heq

theorem wellFormed_all (h : ∀ q ∈ parts, q.WellFormed conds) (hp : all? parts = some p) :
    p.WellFormed conds := by
  have hflat : ∀ q ∈ parts.flatMap conjuncts, q.WellFormed conds ∧ ¬ q.IsAnd := by
    intro q hq
    obtain ⟨part, hpart, hq⟩ := List.mem_flatMap.mp hq
    exact (h part hpart).of_conjuncts hq
  rw [all?] at hp
  split at hp
  · cases hp
  · next q hone =>
    obtain rfl := Option.some.inj hp
    exact (hflat q (by simp [hone])).1
  · next hnil hone =>
    obtain rfl := Option.some.inj hp
    exact .and (two_le_length hnil hone) (fun q hq => (hflat q hq).2) fun q hq => (hflat q hq).1

theorem wellFormed_any (h : ∀ q ∈ parts, q.WellFormed conds) : (any parts).WellFormed conds := by
  unfold any
  split
  · exact .never
  · exact h _ (List.mem_singleton_self _)
  · next hnil hone => exact .or (two_le_length hnil hone) h

theorem wellFormed_equality (c : Column) (negated : Bool) (v : Literal) :
    (equality c negated v).WellFormed conds := by
  unfold equality
  split
  · exact .isNull c
  · exact .isNotNull c
  · next hknown => exact .compare c .eq hknown
  · next hknown => exact .compare c .notEq hknown

theorem wellFormed_membership (c : Column) (negated : Bool) (vs : List Literal) :
    (membership c negated vs).WellFormed conds := by
  have hknown : ∀ v ∈ vs.filter (!·.isNull), v.isNull = false := by
    intro v hv
    simpa using (List.mem_filter.mp hv).2
  unfold membership
  split
  · exact .never
  · exact .isNull c
  · exact .isNotNull c
  · next hne => exact .oneOf c _ hne hknown
  · next hne =>
    exact .or (Nat.le_refl 2) (forall_mem_pair (.oneOf c _ hne hknown) (.isNull c))
  · next hne =>
    refine .and (Nat.le_refl 2) (forall_mem_pair ?_ ?_)
      (forall_mem_pair (.oneOf c _ hne hknown) (.isNotNull c)) <;>
    · rintro ⟨parts, heq⟩
      cases heq

/-- The texts of a list are looked for one by one, without null. -/
theorem wellFormed_texts {cond : Condition} (hmem : cond ∈ conds) {vs : List Literal}
    (hvalues : cond.operand.values = vs) {f : Column → String → Predicate}
    (hf : ∀ c text, (∃ cond ∈ conds, cond.LooksFor c text) → (f c text).WellFormed conds) :
    ∀ q ∈ (knownTexts vs).map (f (Column.ofKey cond.key)), q.WellFormed conds := by
  intro q hq
  obtain ⟨text, htext, rfl⟩ := List.mem_map.mp hq
  obtain ⟨v, hv, rfl⟩ := List.mem_map.mp htext
  obtain ⟨hv, hknown⟩ := List.mem_filter.mp hv
  exact hf _ _ ⟨cond, hmem, rfl, v, hvalues ▸ hv, by simpa using hknown, rfl⟩

theorem wellFormed_ofCondition {cond : Condition} (hmem : cond ∈ conds)
    (hp : ofCondition? cond = some p) : p.WellFormed conds := by
  have known {v : Literal} {q : Predicate}
      (hq : (if v.isNull = true then none else some q) = some p)
      (hformed : v.isNull = false → q.WellFormed conds) : p.WellFormed conds := by
    split at hq
    · cases hq
    · next hknown =>
      obtain rfl := Option.some.inj hq
      exact hformed (by simpa using hknown)
  obtain ⟨key, operator, operand⟩ := cond
  cases operator with
  | eq | not =>
    cases operand with
    | scalar v => exact Option.some.inj hp ▸ wellFormed_equality _ _ v
    | list | flag | relative => cases hp
  | lt | lte | gt | gte =>
    cases operand with
    | scalar v => exact known hp (.compare _ _)
    | list | flag | relative => cases hp
  | regex =>
    cases operand with
    | scalar v =>
      exact known hp fun hknown => .regex ⟨_, hmem, rfl, v, List.mem_singleton_self v, hknown, rfl⟩
    | list | flag | relative => cases hp
  | contain | notContain =>
    cases operand with
    | scalar v =>
      exact known hp fun hknown =>
        .contains _ ⟨_, hmem, rfl, v, List.mem_singleton_self v, hknown, rfl⟩
    | list | flag | relative => cases hp
  | «exists» =>
    cases operand with
    | flag b => cases b <;> exact Option.some.inj hp ▸ by constructor
    | scalar | list | relative => cases hp
  | «in» | notIn =>
    cases operand with
    | list vs => exact Option.some.inj hp ▸ wellFormed_membership _ _ vs
    | scalar | flag | relative => cases hp
  | containIn =>
    cases operand with
    | list vs =>
      exact Option.some.inj hp ▸ wellFormed_any
        (wellFormed_texts hmem rfl (f := (.contains · · false)) fun _ _ => .contains false)
    | scalar | flag | relative => cases hp
  | notContainIn =>
    cases operand with
    | list vs =>
      exact wellFormed_all
        (wellFormed_texts hmem rfl (f := (.contains · · true)) fun _ _ => .contains true) hp
    | scalar | flag | relative => cases hp
  | regexIn =>
    cases operand with
    | list vs =>
      exact Option.some.inj hp ▸ wellFormed_any
        (wellFormed_texts hmem rfl (f := .regex) fun _ _ => .regex)
    | scalar | flag | relative => cases hp
  | datetimeGt | datetimeGte | datetimeLt | datetimeLte =>
    cases operand with
    | scalar v =>
      cases v with
      | text t => exact Option.some.inj hp ▸ .datetime _ t (by decide)
      | null | bool | int | float => cases hp
    | list | flag | relative => cases hp
  | timediffGt | timediffGte | timediffLt | timediffLte =>
    cases operand with
    | relative t => exact Option.some.inj hp ▸ .timediff _ t (by decide)
    | scalar | list | flag => cases hp

theorem wellFormed_filterMap {asked : List Condition} (hsub : asked ⊆ conds) :
    ∀ q ∈ asked.filterMap ofCondition?, q.WellFormed conds := by
  intro q hq
  obtain ⟨cond, hcond, hq⟩ := List.mem_filterMap.mp hq
  exact wellFormed_ofCondition (hsub hcond) hq

theorem wellFormed_ofFilters {filter filterOr : List Condition}
    (hp : ofFilters? filter filterOr = some p) : p.WellFormed (filter ++ filterOr) := by
  refine wellFormed_all (List.forall_mem_append.mpr
    ⟨wellFormed_filterMap (List.subset_append_left _ _), fun q hq => ?_⟩) hp
  rw [Option.mem_toList, alternatives?] at hq
  split at hq
  · cases hq
  · obtain rfl := Option.mem_some_iff.mp hq
    exact wellFormed_any (wellFormed_filterMap (List.subset_append_right _ _))

end Predicate

/-- The window is two comparisons with texts, beside which the filters stand undivided. -/
theorem AnalyzeQuery.wellFormed_predicate {q : AnalyzeQuery} {p : Predicate}
    (hp : q.predicate? = some p) : p.WellFormed (q.filter ++ q.filterOr) := by
  refine Predicate.wellFormed_all (List.forall_mem_append.mpr
    ⟨Predicate.forall_mem_pair (.compare _ _ rfl) (.compare _ _ rfl), fun p hp => ?_⟩) hp
  exact Predicate.wellFormed_ofFilters (Option.mem_toList.mp hp)

end CostQuery

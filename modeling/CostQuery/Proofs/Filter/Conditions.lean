import CostQuery.Proofs.Filter.Asks
import CostQuery.Proofs.Outcome
import CostQuery.Proofs.Store.Plain
import CostQuery.Query.Validate

/-! What conditions ask of a record, and that the predicate made of them asks the same. -/

namespace CostQuery

/-- How values that are not null are ordered and matched. -/
structure Matching where
  literal : Literal → Value
  literal_null : ∀ l, literal l = .null ↔ l.isNull = true
  ordered : Comparison → Value → Value → Prop
  regex : (pattern : String) → Value → Prop
  contains : (text : String) → Value → Prop
  datetime : Comparison → Value → (text : String) → Prop
  timediff : Comparison → Value → RelativeTime → Prop

/-- What a store answers about texts, moments, and values of one type. -/
def Engine.matching (g : Engine) : Matching where
  literal := g.literal
  literal_null l := by cases l <;> simp [literal, Literal.isNull]
  ordered op a b := Value.ordered? op a b = some true
  regex pattern v := ∃ s, v = .text s ∧ g.regex pattern s = true
  contains text v := ∃ s, v = .text s ∧
    g.regexAnyCase (Text.escape Text.regexSpecial text) s = true
  datetime op v text := ∃ a b, g.moment? v = some a ∧ g.moment? (.text text) = some b ∧
    op.holds a b = true
  timediff op v time := ∃ a, g.moment? v = some a ∧ op.holds a (time.moment g) = true

/-- Of a null column a test is false, but for the test for null. -/
def Predicate.Meets (m : Matching) (f : Fields) : Predicate → Prop
  | .isNull c => f c = .null
  | .isNotNull c => f c ≠ .null
  | .compare c .eq l => f c ≠ .null ∧ f c = m.literal l
  | .compare c .notEq l => f c ≠ .null ∧ f c ≠ m.literal l
  | .compare c op l => f c ≠ .null ∧ m.ordered op (f c) (m.literal l)
  | .regex c pattern => f c ≠ .null ∧ m.regex pattern (f c)
  | .contains c text false => f c ≠ .null ∧ m.contains text (f c)
  | .contains c text true => f c ≠ .null ∧ ¬ m.contains text (f c)
  | .oneOf c ls false => f c ≠ .null ∧ f c ∈ ls.map m.literal
  | .oneOf c ls true => f c ≠ .null ∧ f c ∉ ls.map m.literal
  | .datetime c op text => f c ≠ .null ∧ m.datetime op (f c) text
  | .timediff c op time => f c ≠ .null ∧ m.timediff op (f c) time
  | .and _ | .or _ | .never => False

/-- The operand is of the shape that the operator takes. -/
def Operator.Takes : Operator → Operand → Prop
  | .exists, .flag _ => True
  | .in, .list _ | .notIn, .list _ | .containIn, .list _ | .notContainIn, .list _
  | .regexIn, .list _ => True
  | .datetimeGt, .scalar (.text _) | .datetimeGte, .scalar (.text _)
  | .datetimeLt, .scalar (.text _) | .datetimeLte, .scalar (.text _) => True
  | .timediffGt, .relative _ | .timediffGte, .relative _ | .timediffLt, .relative _
  | .timediffLte, .relative _ => True
  | .eq, .scalar _ | .not, .scalar _ | .lt, .scalar _ | .lte, .scalar _ | .gt, .scalar _
  | .gte, .scalar _ | .regex, .scalar _ | .contain, .scalar _ | .notContain, .scalar _ => True
  | _, _ => False

namespace Condition

/-- An ordering or a match against null asks for nothing, nor does a list of texts to lack that has
no text. -/
def AsksNothing (c : Condition) : Prop :=
  match c.operator, c.operand with
  | .lt, .scalar l | .lte, .scalar l | .gt, .scalar l | .gte, .scalar l | .regex, .scalar l
  | .contain, .scalar l | .notContain, .scalar l => l.isNull = true
  | .notContainIn, .list ls => ∀ l ∈ ls, l.isNull = true
  | _, _ => False

/-- What a condition asks of the value in its column. -/
def Asks (m : Matching) (v : Value) (c : Condition) : Prop :=
  match c.operator, c.operand with
  | .eq, .scalar .null => v = .null
  | .eq, .scalar l => v ≠ .null ∧ v = m.literal l
  | .not, .scalar .null => v ≠ .null
  | .not, .scalar l => v ≠ .null ∧ v ≠ m.literal l
  | .lt, .scalar l => v ≠ .null ∧ m.ordered .lt v (m.literal l)
  | .lte, .scalar l => v ≠ .null ∧ m.ordered .lte v (m.literal l)
  | .gt, .scalar l => v ≠ .null ∧ m.ordered .gt v (m.literal l)
  | .gte, .scalar l => v ≠ .null ∧ m.ordered .gte v (m.literal l)
  | .regex, .scalar l => v ≠ .null ∧ m.regex l.toText v
  | .exists, .flag b => v ≠ .null ↔ b = true
  | .contain, .scalar l => v ≠ .null ∧ m.contains l.toText v
  | .notContain, .scalar l => v ≠ .null ∧ ¬ m.contains l.toText v
  | .in, .list ls => v ∈ ls.map m.literal
  | .notIn, .list ls => ls ≠ [] ∧ v ≠ .null ∧ v ∉ ls.map m.literal
  | .containIn, .list ls => v ≠ .null ∧ ∃ l ∈ ls, l.isNull = false ∧ m.contains l.toText v
  | .notContainIn, .list ls => v ≠ .null ∧ ∀ l ∈ ls, l.isNull = false → ¬ m.contains l.toText v
  | .regexIn, .list ls => v ≠ .null ∧ ∃ l ∈ ls, l.isNull = false ∧ m.regex l.toText v
  | .datetimeGt, .scalar (.text t) => v ≠ .null ∧ m.datetime .gt v t
  | .datetimeGte, .scalar (.text t) => v ≠ .null ∧ m.datetime .gte v t
  | .datetimeLt, .scalar (.text t) => v ≠ .null ∧ m.datetime .lt v t
  | .datetimeLte, .scalar (.text t) => v ≠ .null ∧ m.datetime .lte v t
  | .timediffGt, .relative t => v ≠ .null ∧ m.timediff .gt v t
  | .timediffGte, .relative t => v ≠ .null ∧ m.timediff .gte v t
  | .timediffLt, .relative t => v ≠ .null ∧ m.timediff .lt v t
  | .timediffLte, .relative t => v ≠ .null ∧ m.timediff .lte v t
  | _, _ => False

/-- The record has what the condition asks for. -/
def Holds (m : Matching) (f : Fields) (c : Condition) : Prop := c.Asks m (f (Column.ofKey c.key))

end Condition

/-! What joins the parts of a predicate. -/

namespace Predicate
variable {met : Predicate → Prop} {p : Predicate} {parts : List Predicate}

theorem holds_iff_conjuncts : p.holds met ↔ ∀ q ∈ p.conjuncts, q.holds met := by
  cases p with
  | and parts => exact holds_and
  | isNull | isNotNull | compare | regex | contains | oneOf | datetime | timediff | or | never =>
    exact List.forall_mem_singleton.symm

/-- Where nothing is left to meet, every part is met. -/
theorem holds_all : (∀ p ∈ all? parts, p.holds met) ↔ ∀ p ∈ parts, p.holds met := by
  have hflat : (∀ p ∈ parts, p.holds met) ↔ ∀ q ∈ parts.flatMap conjuncts, q.holds met := by
    simp only [List.forall_mem_flatMap, ← holds_iff_conjuncts]
  rw [hflat, all?]
  split
  · next hnil => simp [hnil]
  · next q hone => simp [hone]
  · simp [holds_and]

theorem holds_any (hnever : ¬ met .never) : (any parts).holds met ↔ ∃ p ∈ parts, p.holds met := by
  unfold any
  split
  · simpa [holds] using hnever
  · simp
  · exact holds_or

/-! The predicate of one condition. -/

section
variable {m : Matching} {f : Fields} {c : Column} {cond : Condition} {key : String}
  {l : Literal} {ls : List Literal}

theorem not_meets_never : ¬ Meets m f .never := id

theorem holds_equality :
    ((equality c false l).holds (Meets m f) ↔ Condition.Asks m (f c) ⟨key, .eq, .scalar l⟩) ∧
      ((equality c true l).holds (Meets m f) ↔
        Condition.Asks m (f c) ⟨key, .not, .scalar l⟩) := by
  cases l <;> exact ⟨Iff.rfl, Iff.rfl⟩

theorem null_mem_literals : .null ∈ ls.map m.literal ↔ ls.any (·.isNull) = true := by
  simp [m.literal_null]

theorem mem_literals_known {v : Value} (h : v ≠ .null) :
    v ∈ (ls.filter (!·.isNull)).map m.literal ↔ v ∈ ls.map m.literal := by
  simp only [List.mem_map, List.mem_filter, Bool.not_eq_true', and_assoc]
  refine exists_congr fun l => and_congr_right fun _ => and_iff_right_of_imp ?_
  rintro rfl
  rw [← Bool.not_eq_true, ← m.literal_null]
  exact h

theorem literals_ne_nil : ls ≠ [] ↔ ls.filter (!·.isNull) ≠ [] ∨ ls.any (·.isNull) = true := by
  induction ls with
  | nil => simp
  | cons l rest ih => cases hl : l.isNull <;> simp [hl]

/-- A value is in a list, null included. -/
theorem holds_membership : (membership c false ls).holds (Meets m f) ↔ f c ∈ ls.map m.literal := by
  have hparts : (membership c false ls).holds (Meets m f) ↔
      (ls.filter (!·.isNull) ≠ [] ∧ Meets m f (.oneOf c (ls.filter (!·.isNull)) false)) ∨
        (ls.any (·.isNull) = true ∧ f c = .null) := by
    unfold membership
    cases ls.filter (!·.isNull) <;> cases ls.any (·.isNull) <;> simp [holds, holdsAny, Meets]
  rw [hparts, Meets, ← null_mem_literals (m := m)]
  by_cases hv : f c = .null
  · simp [hv]
  · simp only [mem_literals_known hv, hv, not_false_eq_true, ne_eq, true_and, and_false, or_false]
    refine and_iff_right_of_imp fun hmem hnil => ?_
    rw [← mem_literals_known hv, hnil] at hmem
    cases hmem

theorem holds_not_membership : (membership c true ls).holds (Meets m f) ↔
    ls ≠ [] ∧ f c ≠ .null ∧ f c ∉ ls.map m.literal := by
  have hparts : (membership c true ls).holds (Meets m f) ↔
      (ls.filter (!·.isNull) ≠ [] ∨ ls.any (·.isNull) = true) ∧
        (ls.filter (!·.isNull) ≠ [] → Meets m f (.oneOf c (ls.filter (!·.isNull)) true)) ∧
        (ls.any (·.isNull) = true → f c ≠ .null) := by
    unfold membership
    cases ls.filter (!·.isNull) <;> cases ls.any (·.isNull) <;> simp [holds, holdsAll, Meets]
  rw [hparts, Meets, ← literals_ne_nil]
  refine and_congr_right fun hne => ?_
  constructor
  · rintro ⟨hlist, hnull⟩
    have hv : f c ≠ .null := (literals_ne_nil.mp hne).elim (fun hk => (hlist hk).1) hnull
    refine ⟨hv, fun hmem => ?_⟩
    rw [← mem_literals_known hv] at hmem
    exact (hlist fun hnil => by simp [hnil] at hmem).2 hmem
  · rintro ⟨hv, hmem⟩
    exact ⟨fun _ => ⟨hv, (mem_literals_known hv).not.mpr hmem⟩, fun _ => hv⟩

section
variable {test : String → Predicate} (asked : String → Prop)
  (htest : ∀ t, (test t).isTest = true)
include htest

theorem all_known_eq_none :
    all? ((knownTexts ls).map test) = none ↔ ∀ l ∈ ls, l.isNull = true := by
  have hconjuncts : ((knownTexts ls).map test).flatMap conjuncts = (knownTexts ls).map test := by
    simp only [List.flatMap_map, conjuncts_of_isTest (htest _), ← List.map_eq_flatMap]
  have hnil : (knownTexts ls).map test = [] ↔ ∀ l ∈ ls, l.isNull = true := by
    simp [knownTexts]
  rw [← hnil, all?, hconjuncts]
  cases (knownTexts ls).map test with
  | nil => exact iff_of_true rfl rfl
  | cons p rest =>
    refine iff_of_false ?_ (List.cons_ne_nil p rest)
    cases rest with
    | nil => exact Option.some_ne_none p
    | cons q rest => exact Option.some_ne_none _

variable (hmeets : ∀ t, Meets m f (test t) ↔ f c ≠ .null ∧ asked t)
include hmeets

theorem holds_any_known : (any ((knownTexts ls).map test)).holds (Meets m f) ↔
    f c ≠ .null ∧ ∃ l ∈ ls, l.isNull = false ∧ asked l.toText := by
  rw [holds_any not_meets_never]
  constructor
  · rintro ⟨p, hp, hmet⟩
    obtain ⟨t, ht, rfl⟩ := List.mem_map.mp hp
    obtain ⟨l, hl, rfl⟩ := List.mem_map.mp ht
    obtain ⟨hl, hknown⟩ := List.mem_filter.mp hl
    obtain ⟨hv, hasked⟩ := (hmeets _).mp ((holds_of_isTest (htest _)).mp hmet)
    exact ⟨hv, l, hl, by simpa using hknown, hasked⟩
  · rintro ⟨hv, l, hl, hknown, hasked⟩
    refine ⟨test l.toText, List.mem_map_of_mem (List.mem_map_of_mem ?_), ?_⟩
    · exact List.mem_filter.mpr ⟨hl, by simp [hknown]⟩
    · exact (holds_of_isTest (htest _)).mpr ((hmeets _).mpr ⟨hv, hasked⟩)

theorem holds_all_known {p : Predicate} (hp : all? ((knownTexts ls).map test) = some p) :
    p.holds (Meets m f) ↔ f c ≠ .null ∧ ∀ l ∈ ls, l.isNull = false → asked l.toText := by
  have hsome : ∃ l ∈ ls, l.isNull = false := by
    by_contra hnone
    have : all? ((knownTexts ls).map test) = none :=
      (all_known_eq_none htest).mpr (by simpa using hnone)
    rw [hp] at this
    cases this
  have hall : (∀ p ∈ all? ((knownTexts ls).map test), p.holds (Meets m f)) ↔
      ∀ p ∈ (knownTexts ls).map test, p.holds (Meets m f) := holds_all
  rw [hp] at hall
  simp only [Option.mem_some_iff, forall_eq', knownTexts, List.forall_mem_map, List.mem_filter,
    Bool.not_eq_true', holds_of_isTest (htest _), hmeets, and_imp] at hall
  rw [hall]
  constructor
  · intro h
    obtain ⟨l, hl, hknown⟩ := hsome
    exact ⟨(h l hl hknown).1, fun l hl hknown => (h l hl hknown).2⟩
  · exact fun ⟨hv, h⟩ l hl hknown => ⟨hv, h l hl hknown⟩

end

/-- A condition whose operand fits its operator leaves no predicate only if it asks for nothing. -/
theorem ofCondition_eq_none {cond : Condition} (h : cond.operator.Takes cond.operand) :
    ofCondition? cond = none ↔ cond.AsksNothing := by
  have known : ∀ {l : Literal} {q : Predicate},
      (if l.isNull = true then none else some q) = none ↔ l.isNull = true := by
    intro l q
    split <;> simp [*]
  obtain ⟨key, operator, operand⟩ := cond
  cases operator with
  | eq | not =>
    cases operand with
    | scalar l => exact iff_of_false nofun id
    | list | flag | relative => exact h.elim
  | lt | lte | gt | gte | regex | contain | notContain =>
    cases operand with
    | scalar l => exact known
    | list | flag | relative => exact h.elim
  | «exists» =>
    cases operand with
    | flag b => cases b <;> exact iff_of_false nofun id
    | scalar | list | relative => exact h.elim
  | «in» | notIn | containIn | regexIn =>
    cases operand with
    | list ls => exact iff_of_false nofun id
    | scalar | flag | relative => exact h.elim
  | notContainIn =>
    cases operand with
    | list ls => exact all_known_eq_none fun _ => rfl
    | scalar | flag | relative => exact h.elim
  | datetimeGt | datetimeGte | datetimeLt | datetimeLte =>
    cases operand with
    | scalar l =>
      cases l with
      | text t => exact iff_of_false nofun id
      | null | bool | int | float => exact h.elim
    | list | flag | relative => exact h.elim
  | timediffGt | timediffGte | timediffLt | timediffLte =>
    cases operand with
    | relative t => exact iff_of_false nofun id
    | scalar | list | flag => exact h.elim

theorem holds_ofCondition {cond : Condition} {p : Predicate} (h : ofCondition? cond = some p) :
    p.holds (Meets m f) ↔ cond.Holds m f := by
  have known : ∀ {l : Literal} {q : Predicate} {asked : Prop},
      (if l.isNull = true then none else some q) = some p → (q.holds (Meets m f) ↔ asked) →
      (p.holds (Meets m f) ↔ asked) := by
    intro l q asked hq hasked
    split at hq
    · cases hq
    · exact Option.some.inj hq ▸ hasked
  obtain ⟨key, operator, operand⟩ := cond
  cases operator with
  | eq =>
    cases operand with
    | scalar l => exact Option.some.inj h ▸ holds_equality.1
    | list | flag | relative => cases h
  | not =>
    cases operand with
    | scalar l => exact Option.some.inj h ▸ holds_equality.2
    | list | flag | relative => cases h
  | lt | lte | gt | gte | regex | contain | notContain =>
    cases operand with
    | scalar l => exact known h Iff.rfl
    | list | flag | relative => cases h
  | «exists» =>
    cases operand with
    | flag b =>
      cases b <;> obtain rfl := Option.some.inj h <;>
        simp [holds, Meets, Condition.Holds, Condition.Asks]
    | scalar | list | relative => cases h
  | «in» =>
    cases operand with
    | list ls => exact Option.some.inj h ▸ holds_membership
    | scalar | flag | relative => cases h
  | notIn =>
    cases operand with
    | list ls => exact Option.some.inj h ▸ holds_not_membership
    | scalar | flag | relative => cases h
  | containIn =>
    cases operand with
    | list ls =>
      exact Option.some.inj h ▸ holds_any_known (m.contains · (f (Column.ofKey key)))
        (fun _ => rfl) fun _ => Iff.rfl
    | scalar | flag | relative => cases h
  | regexIn =>
    cases operand with
    | list ls =>
      exact Option.some.inj h ▸ holds_any_known (m.regex · (f (Column.ofKey key)))
        (fun _ => rfl) fun _ => Iff.rfl
    | scalar | flag | relative => cases h
  | notContainIn =>
    cases operand with
    | list ls =>
      exact holds_all_known (fun t => ¬ m.contains t (f (Column.ofKey key))) (fun _ => rfl)
        (fun _ => Iff.rfl) h
    | scalar | flag | relative => cases h
  | datetimeGt | datetimeGte | datetimeLt | datetimeLte =>
    cases operand with
    | scalar l =>
      cases l with
      | text t => exact Option.some.inj h ▸ Iff.rfl
      | null | bool | int | float => cases h
    | list | flag | relative => cases h
  | timediffGt | timediffGte | timediffLt | timediffLte =>
    cases operand with
    | relative t => exact Option.some.inj h ▸ Iff.rfl
    | scalar | list | flag => cases h

/-- The alternatives that ask for something: one of them holds, if there are any. -/
theorem holds_alternatives (hnever : ¬ met .never) {conds : List Condition} :
    (∀ p ∈ alternatives? conds, p.holds met) ↔
      (conds.filterMap ofCondition? ≠ [] → ∃ p ∈ conds.filterMap ofCondition?, p.holds met) := by
  rw [alternatives?]
  split
  · next hnil => simp [hnil]
  · next hne =>
    rw [forall_prop_of_true hne]
    simp only [Option.mem_some_iff, forall_eq', holds_any hnever]

theorem holds_filters (hnever : ¬ met .never) {filter filterOr : List Condition} :
    (∀ p ∈ ofFilters? filter filterOr, p.holds met) ↔
      (∀ p ∈ filter.filterMap ofCondition?, p.holds met) ∧
        (filterOr.filterMap ofCondition? ≠ [] →
          ∃ p ∈ filterOr.filterMap ofCondition?, p.holds met) := by
  rw [ofFilters?, holds_all, List.forall_mem_append, ← holds_alternatives hnever]
  simp

theorem holds_ofFilters {filter filterOr : List Condition} :
    (∀ p ∈ ofFilters? filter filterOr, p.holds (Meets m f)) ↔
      (∀ p ∈ filter.filterMap ofCondition?, p.holds (Meets m f)) ∧
        (filterOr.filterMap ofCondition? ≠ [] →
          ∃ p ∈ filterOr.filterMap ofCondition?, p.holds (Meets m f)) :=
  holds_filters not_meets_never

end
end Predicate

/-! What the checks let pass. -/

theorem Operand.takes_of_ofJson {operator : Operator} {v : Json} {operand : Operand}
    (h : ofJson operator v = .ok operand) : operator.Takes operand := by
  cases operator with
  | eq | not | lt | lte | gt | gte | regex | contain | notContain =>
    simp only [ofJson, ofScalar] at h
    split at h
    · obtain rfl := Except.ok.inj h
      trivial
    · cases h
  | «exists» =>
    simp only [ofJson, ofFlag] at h
    split at h
    · obtain rfl := Except.ok.inj h
      trivial
    · obtain rfl := Except.ok.inj h
      trivial
    · cases h
  | «in» | notIn | containIn | notContainIn | regexIn =>
    simp only [ofJson, ofList] at h
    split at h
    · obtain ⟨ls, -, rfl⟩ := map_ok.mp h
      trivial
    · split at h
      · obtain rfl := Except.ok.inj h
        trivial
      · cases h
  | datetimeGt | datetimeGte | datetimeLt | datetimeLte =>
    simp only [ofJson, ofTimestamp] at h
    split at h
    · obtain rfl := Except.ok.inj h
      trivial
    · cases h
  | timediffGt | timediffGte | timediffLt | timediffLte =>
    simp only [ofJson, ofRelative] at h
    split at h
    · cases h
    · split at h
      · obtain rfl := Except.ok.inj h
        trivial
      · cases h

namespace Condition
variable {m : Matching} {f : Fields} {r : Request.Condition} {c : Condition}

theorem operand_of_ofRequest (h : ofRequest r = .ok c) :
    Operand.ofJson c.operator r.value = .ok c.operand := by
  rw [ofRequest] at h
  split at h
  · cases h
  · simp only [bind_ok, pure_ok] at h
    obtain ⟨operator, -, operand, hoperand, rfl⟩ := h
    exact mapError_ok hoperand

theorem takes_of_ofRequest (h : ofRequest r = .ok c) : c.operator.Takes c.operand :=
  Operand.takes_of_ofJson (operand_of_ofRequest h)

/-- Each of the conditions has an operand that fits its operator. -/
def Fitting (conds : List Condition) : Prop := ∀ c ∈ conds, c.operator.Takes c.operand

theorem fitting_of_ofRequest {rs : List Request.Condition} {conds : List Condition}
    (h : rs.mapM ofRequest = .ok conds) : Fitting conds := by
  intro c hc
  obtain ⟨r, -, hr⟩ := exists_of_forall₂ (mapM_ok h).flip hc
  exact takes_of_ofRequest hr

namespace Fitting
variable {conds : List Condition}

theorem lowered_ne_nil (h : Fitting conds) :
    conds.filterMap Predicate.ofCondition? ≠ [] ↔ ∃ c ∈ conds, ¬ c.AsksNothing := by
  simp only [Ne, List.filterMap_eq_nil_iff, not_forall, exists_prop]
  exact exists_congr fun c => and_congr_right fun hc => (Predicate.ofCondition_eq_none (h c hc)).not

theorem some_lowered (h : Fitting conds) :
    (∃ p ∈ conds.filterMap Predicate.ofCondition?, p.holds (Predicate.Meets m f)) ↔
      ∃ c ∈ conds, ¬ c.AsksNothing ∧ c.Holds m f := by
  constructor
  · rintro ⟨p, hp, hmet⟩
    obtain ⟨c, hc, hp⟩ := List.mem_filterMap.mp hp
    refine ⟨c, hc, ?_, (Predicate.holds_ofCondition hp).mp hmet⟩
    rw [← Predicate.ofCondition_eq_none (h c hc), hp]
    exact nofun
  · rintro ⟨c, hc, hasks, hmet⟩
    rw [← Predicate.ofCondition_eq_none (h c hc)] at hasks
    obtain ⟨p, hp⟩ := Option.ne_none_iff_exists'.mp hasks
    exact ⟨p, List.mem_filterMap.mpr ⟨c, hc, hp⟩, (Predicate.holds_ofCondition hp).mpr hmet⟩

end Fitting
end Condition

/-- Costs of one region, of no known provider. -/
def unprovided : Fields := fun c =>
  if c = ⟨"region_code", none⟩ then .text "us-east-1"
  else if c = ⟨"tags", some "Name"⟩ then .text "My-WEB_1"
  else .null

end CostQuery

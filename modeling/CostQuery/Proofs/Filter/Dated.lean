import CostQuery.Proofs.Filter.Conditions

/-! Predicates that bound the billed period: whatever meets them meets a test of a billed date. It
is enough to look at the tests of other columns. If they alone can meet a predicate, it leaves the
period open. -/

namespace CostQuery

namespace Predicate
variable {roots : List String} {met : Predicate → Prop} {p t : Predicate} {parts : List Predicate}
  {c : Column} {cond : Condition} {filter filterOr : List Condition}

/-- The test is about one of the columns, or about a part of it. -/
def IsDated (roots : List String) (t : Predicate) : Prop :=
  ∃ c, t.column? = some c ∧ c.root ∈ roots

theorem mentions_iff : p.mentions roots = true ↔ ∃ t ∈ p.tests, t.IsDated roots := by
  simp [mentions, IsDated, Option.any_eq_true]

/-- Whichever tests are met, a dated one is among them where the predicate holds. -/
def BoundsPeriod (roots : List String) (p : Predicate) : Prop :=
  ∀ met : Predicate → Prop, ¬ met .never → p.holds met → ∃ t ∈ p.tests, t.IsDated roots ∧ met t

/-- The most that can be met without a dated test. -/
def Undated (roots : List String) (t : Predicate) : Prop := t ≠ .never ∧ ¬ t.IsDated roots

theorem not_undated_never : ¬ Undated roots .never := fun h => h.1 rfl

/-- No test is negated from outside, so that the most favourable case decides. -/
theorem boundsPeriod_iff : p.BoundsPeriod roots ↔ ¬ p.holds (Undated roots) := by
  constructor
  · intro h hp
    obtain ⟨t, -, hdated, hundated⟩ := h _ not_undated_never hp
    exact hundated.2 hdated
  · intro h met hnever hp
    by_contra hnone
    apply h
    refine holds_mono ?_ hp
    intro t ht hmet
    refine ⟨?_, fun hdated => hnone ⟨t, ht, hdated, hmet⟩⟩
    rintro rfl
    exact hnever hmet

theorem undated_iff (h : p.column? = some c) : p.Undated roots ↔ c.root ∉ roots := by
  constructor
  · intro hp hc
    exact hp.2 ⟨c, h, hc⟩
  · intro hc
    refine ⟨?_, ?_⟩
    · rintro rfl
      cases h
    · rintro ⟨c', hc', hroot⟩
      obtain rfl := Option.some.inj (h.symm.trans hc')
      exact hc hroot

theorem OneColumn.holds_undated (h : OneColumn c p) : p.holds (Undated roots) ↔ c.root ∉ roots := by
  have htest : ∀ {p : Predicate}, p.column? = some c →
      (p.holds (Undated roots) ↔ c.root ∉ roots) := by
    intro p hp
    rw [holds_of_isTest (isTest_of_column hp), undated_iff hp]
  cases h with
  | test hp => exact htest hp
  | @and parts hne hparts =>
    obtain ⟨q, hq⟩ := List.exists_mem_of_ne_nil parts hne
    rw [holds_and]
    exact ⟨fun hall => (htest (hparts q hq)).mp (hall q hq),
      fun hc q hq => (htest (hparts q hq)).mpr hc⟩
  | @or parts hne hparts =>
    obtain ⟨q, hq⟩ := List.exists_mem_of_ne_nil parts hne
    rw [holds_or]
    exact ⟨fun ⟨q, hq, hheld⟩ => (htest (hparts q hq)).mp hheld,
      fun hc => ⟨q, hq, (htest (hparts q hq)).mpr hc⟩⟩

end Predicate

namespace Condition
variable {roots : List String} {c : Condition} {filter filterOr : List Condition} {p : Predicate}

/-- It asks for a billed date, or for what nothing can meet. -/
def BoundsPeriod (roots : List String) (c : Condition) : Prop :=
  ∃ p, Predicate.ofCondition? c = some p ∧ (p = .never ∨ (Column.ofKey c.key).root ∈ roots)

theorem holds_undated (h : Predicate.ofCondition? c = some p) :
    p.holds (Predicate.Undated roots) ↔ ¬ c.BoundsPeriod roots := by
  have hbounds : c.BoundsPeriod roots ↔ p = .never ∨ (Column.ofKey c.key).root ∈ roots := by
    simp [BoundsPeriod, h]
  rw [hbounds, not_or]
  rcases Predicate.oneColumn_ofCondition h with rfl | hcolumn
  · exact iff_of_false Predicate.not_undated_never fun hne => hne.1 rfl
  · have hne : p ≠ .never := by
      rintro rfl
      cases hcolumn with
      | test hc => cases hc
    rw [hcolumn.holds_undated]
    exact (and_iff_right hne).symm

/-- The filters bound the period: one condition does, or every alternative that is asked for. -/
def AllBoundPeriod (roots : List String) (filter filterOr : List Condition) : Prop :=
  (∃ c ∈ filter, c.BoundsPeriod roots) ∨
    ((∃ c ∈ filterOr, Predicate.ofCondition? c ≠ none) ∧
      ∀ c ∈ filterOr, Predicate.ofCondition? c ≠ none → c.BoundsPeriod roots)

theorem boundsPeriod_ofFilters (h : Predicate.ofFilters? filter filterOr = some p) :
    p.BoundsPeriod roots ↔ AllBoundPeriod roots filter filterOr := by
  have hnever : ¬ Predicate.Undated roots .never := Predicate.not_undated_never
  have hfilters : (∀ q ∈ Predicate.ofFilters? filter filterOr,
      q.holds (Predicate.Undated roots)) ↔ _ := Predicate.holds_filters hnever
  rw [h] at hfilters
  simp only [Option.mem_some_iff, forall_eq'] at hfilters
  rw [Predicate.boundsPeriod_iff, hfilters, not_and_or]
  have hopen : ∀ conds : List Condition, (∃ q ∈ conds.filterMap Predicate.ofCondition?,
      q.holds (Predicate.Undated roots)) ↔
        ∃ c ∈ conds, Predicate.ofCondition? c ≠ none ∧ ¬ c.BoundsPeriod roots := by
    intro conds
    constructor
    · rintro ⟨q, hq, hheld⟩
      obtain ⟨c, hc, hlowered⟩ := List.mem_filterMap.mp hq
      exact ⟨c, hc, by simp [hlowered], (holds_undated hlowered).mp hheld⟩
    · rintro ⟨c, hc, hasked, hopen⟩
      obtain ⟨q, hq⟩ := Option.ne_none_iff_exists'.mp hasked
      exact ⟨q, List.mem_filterMap.mpr ⟨c, hc, hq⟩, (holds_undated hq).mpr hopen⟩
  refine or_congr ?_ ?_
  · simp only [not_forall]
    constructor
    · rintro ⟨q, hq, hclosed⟩
      obtain ⟨c, hc, hlowered⟩ := List.mem_filterMap.mp hq
      exact ⟨c, hc, not_not.mp (mt (holds_undated hlowered).mpr hclosed)⟩
    · rintro ⟨c, hc, q, hlowered, hbounds⟩
      exact ⟨q, List.mem_filterMap.mpr ⟨c, hc, hlowered⟩,
        fun hheld => (holds_undated hlowered).mp hheld ⟨q, hlowered, hbounds⟩⟩
  · rw [hopen, Classical.not_imp, ne_eq, List.filterMap_eq_nil_iff]
    simp only [not_forall, not_exists, not_and, not_not, exists_prop]

end Condition
end CostQuery

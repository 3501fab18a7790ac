import CostQuery.Plan.Search
import CostQuery.Proofs.Filter.Dated
import CostQuery.Proofs.Sql.Meaning
import CostQuery.Sql.Search

/-! When a search is bounded in time: by the window that its statement adds, or by its filters. -/

namespace CostQuery.Sql

/-- The month before this one. -/
def previousMonth : Expr :=
  .call .dateFormat [.call .addMonths [.today, .int (-1)], .text "yyyy-MM"]

/-- Rows of the last months, by the column that the table is divided by. -/
def IsRecent (w : Warehouse) (e : Expr) : Prop :=
  ∃ n : Name, n.text = w.partitionColumn ∧ e = .compare .gte (.column n) previousMonth

/-- It selects rows of the last months only, whatever else is tested. -/
def Select.IsRecent (w : Warehouse) (s : Select) : Prop :=
  ∃ e, Sql.IsRecent w e ∧ (s.filter = some e ∨ ∃ test, s.filter = some (.and [test, e]))

namespace Reader
variable {r : Reader} {p : SearchPlan} {st : Statement}

theorem search_filter (h : r.search p = .ok st) : r.searchFilter p = .ok st.body.filter := by
  simp only [search, bind_ok] at h
  obtain ⟨table, -, explode, -, filter, hfilter, h⟩ := h
  rw [hfilter]
  cases hmode : p.mode with
  | count =>
    rw [hmode] at h
    obtain rfl := pure_ok.mp h
    rfl
  | distinct c =>
    rw [hmode] at h
    obtain ⟨e, -, rfl⟩ := bind_pure_ok.mp h
    rfl
  | rows l =>
    rw [hmode] at h
    obtain ⟨body, hbody, rfl⟩ := bind_pure_ok.mp h
    simp only [listed, bind_ok, pure_ok] at hbody
    obtain ⟨columns, -, computed, -, order, -, rfl⟩ := hbody
    rfl

theorem recentMonths_ok {e : Expr} (h : r.recentMonths = .ok e) : IsRecent r.warehouse e := by
  obtain ⟨column, hcolumn, rfl⟩ := bind_pure_ok.mp h
  obtain ⟨n, hn, rfl⟩ := Expr.ofName_ok hcolumn
  exact ⟨n, hn, rfl⟩

theorem isRecent_of_search (h : r.search p = .ok st) (hdate : p.hasDateFilter = false) :
    st.body.IsRecent r.warehouse := by
  have hfilter := search_filter h
  rw [searchFilter, hdate] at hfilter
  obtain ⟨test, -, hfilter⟩ := bind_ok.mp hfilter
  obtain ⟨window, hwindow, hfilter⟩ := bind_ok.mp hfilter
  obtain ⟨e, he, rfl⟩ := map_ok.mp hwindow
  refine ⟨e, recentMonths_ok he, ?_⟩
  cases test with
  | none => exact Or.inl (pure_ok.mp hfilter).symm
  | some test => exact Or.inr ⟨test, (pure_ok.mp hfilter).symm⟩

theorem filter_of_search (h : r.search p = .ok st) (hdate : p.hasDateFilter = true) :
    p.predicate.mapM r.filter = .ok st.body.filter := by
  have hfilter := search_filter h
  rw [searchFilter, hdate] at hfilter
  obtain ⟨test, htest, hfilter⟩ := bind_ok.mp hfilter
  rw [htest]
  cases test <;> exact hfilter

end Reader

variable {w : Warehouse} {q : SearchQuery} {st : Statement}

/-- Without a test of a billed date a search is of the last months. With one it is left to the
filters, which bound the period if one condition does, or every alternative that is asked for. -/
theorem search_period (h : Statement.ofSearchPlan w (SearchPlan.ofQuery w q) = .ok st) :
    ((SearchPlan.ofQuery w q).hasDateFilter = false → st.body.IsRecent w) ∧
    ((SearchPlan.ofQuery w q).hasDateFilter = true →
      ∃ p e, (SearchPlan.ofQuery w q).predicate = some p ∧
        (∃ t ∈ p.tests, t.IsDated w.dateRoots) ∧
        Reader.filter ⟨w, q.unwind.map Column.ofKey⟩ p = .ok e ∧ st.body.filter = some e) ∧
    ∀ p ∈ (SearchPlan.ofQuery w q).predicate,
      (p.BoundsPeriod w.dateRoots ↔ Condition.AllBoundPeriod w.dateRoots q.filter q.filterOr) ∧
      (Condition.AllBoundPeriod w.dateRoots q.filter q.filterOr →
        ∀ (m : Matching) (f : Fields), p.holds (Predicate.Meets m f) →
          ∃ t ∈ p.tests, t.IsDated w.dateRoots ∧ t.Meets m f) := by
  refine ⟨Reader.isRecent_of_search h, ?_, ?_⟩
  · intro hdate
    have hfilter := Reader.filter_of_search h hdate
    obtain ⟨p, hp, hmentions⟩ := (Option.any_eq_true _ _).mp hdate
    change (SearchPlan.ofQuery w q).predicate = some p at hp
    rw [hp, Option.mapM_some] at hfilter
    obtain ⟨e, he, hfilter⟩ := bind_pure_ok.mp hfilter
    exact ⟨p, e, hp, Predicate.mentions_iff.mp hmentions, he, hfilter.symm⟩
  · intro p hp
    have hbounds : p.BoundsPeriod w.dateRoots ↔ _ := Condition.boundsPeriod_ofFilters hp
    exact ⟨hbounds, fun hall m f => hbounds.mpr hall _ Predicate.not_meets_never⟩

/-- How many costs are of a day, or of some month or later ones. -/
def datesSearch : SearchQuery where
  filter := []
  filterOr := [⟨"billed_date", .eq, .scalar (.text "2024-01-05")⟩,
    ⟨"billed_month", .gte, .scalar (.text "2024-02")⟩]
  sort := []
  page := none
  distinct := none
  select := []
  unwind := none
  minimal := false
  only := []
  countOnly := true

/-- Each alternative is about a date, and no other bound is set. -/
theorem search_period_dates :
    ∃ p st e, (SearchPlan.ofQuery {} datesSearch).predicate = some p ∧
      Statement.ofSearchPlan {} (SearchPlan.ofQuery {} datesSearch) = .ok st ∧
      (SearchPlan.ofQuery {} datesSearch).hasDateFilter = true ∧ st.body.filter = some e ∧
      ∀ (m : Matching) (f : Fields), p.holds (Predicate.Meets m f) →
        ∃ t ∈ p.tests, t.IsDated (Warehouse.dateRoots {}) ∧ t.Meets m f := by
  have h : Statement.ofSearchPlan {} (SearchPlan.ofQuery {} datesSearch) = .ok _ := rfl
  obtain ⟨-, hfiltered, hbounds⟩ := search_period h
  have hdate : (SearchPlan.ofQuery {} datesSearch).hasDateFilter = true := by decide
  obtain ⟨p, e, hp, -, -, he⟩ := hfiltered hdate
  refine ⟨p, _, e, hp, h, hdate, he, (hbounds p hp).2 (Or.inr ⟨⟨_, List.mem_cons_self, nofun⟩, ?_⟩)⟩
  simp only [datesSearch, List.forall_mem_cons, List.not_mem_nil, false_implies, implies_true,
    and_true]
  exact ⟨fun _ => ⟨_, rfl, Or.inr (by decide)⟩, fun _ => ⟨_, rfl, Or.inr (by decide)⟩⟩

/-- How many costs are of a provider, or of a day. -/
def halfDatedRequest : Request where
  filterOr := [{ key := "provider", value := .str "aws" },
    { key := "billed_date", value := .str "2024-01-05" }]
  countOnly := true

def halfDatedSearch : SearchQuery := { datesSearch with
  filterOr := [⟨"provider", .eq, .scalar (.text "aws")⟩,
    ⟨"billed_date", .eq, .scalar (.text "2024-01-05")⟩] }

/-- A cost of the provider, of no known day. -/
def undated : Fields := fun c => if c = ⟨"provider", none⟩ then .text "aws" else .null

/-- Costs of the provider are counted whatever their days are. -/
theorem halfDatedSearch_open :
    ∃ p st, SearchQuery.ofRequest halfDatedRequest = .ok halfDatedSearch ∧
      (SearchPlan.ofQuery {} halfDatedSearch).predicate = some p ∧
      Statement.ofSearchPlan {} (SearchPlan.ofQuery {} halfDatedSearch) = .ok st ∧
      ¬ st.body.IsRecent {} ∧
      p.holds (Predicate.Meets (Engine.plain 0).matching undated) ∧
      ¬ ∃ t ∈ p.tests, t.IsDated (Warehouse.dateRoots {}) ∧
        t.Meets (Engine.plain 0).matching undated := by
  refine ⟨_, _, rfl, rfl, rfl, ?_, ?_, ?_⟩
  · rintro ⟨e, ⟨n, -, rfl⟩, h | ⟨test, h⟩⟩ <;> cases h
  · exact Or.inl ⟨by decide, by decide⟩
  · rintro ⟨t, ht, ⟨c, hc, hroot⟩, hmet⟩
    rcases List.mem_pair.mp ht with rfl | rfl
    · obtain rfl := Option.some.inj hc
      exact absurd hroot (by decide)
    · exact hmet.1 (by decide)

end CostQuery.Sql

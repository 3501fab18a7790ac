import CostQuery.Proofs.Plan.Kept
import CostQuery.Proofs.Sql.Columns
import CostQuery.Sql.Search

/-! Which selects of a statement have something to select. -/

namespace CostQuery

namespace Draft
variable {d : Draft}

/-- Hidden columns and totals go with a field that is shown. -/
def Accompanied (d : Draft) : Prop := d.planned = [] → d.fields = [] ∧ d.totals = []

theorem Accompanied.addKey (h : d.Accompanied) (name : String) (source : KeySource) :
    (d.addKey name source).2.Accompanied := by
  intro hnone
  rcases d.addKey_cases name source with ⟨-, r, hadd, -⟩ | ⟨-, o, r, hadd, -⟩ <;>
    rw [hadd] at hnone ⊢ <;> exact h hnone

theorem Accompanied.addField (h : d.Accompanied) (faceted : Bool) (f : FieldSpec) :
    (d.addField faceted f).Accompanied := by
  intro hnone
  rcases d.addField_cases faceted f with ⟨-, r, hadd, -⟩ | ⟨-, parts, helpers, r, hadd, -⟩ <;>
    rw [hadd] at hnone ⊢
  · exact h hnone
  · exact absurd hnone (List.append_ne_nil_of_right_ne_nil _ (List.cons_ne_nil _ _))

theorem accompanied_addTotal {f : PlannedField} (hf : f ∈ d.planned) :
    (d.addTotal f).Accompanied := by
  intro hnone
  rw [d.planned_addTotal] at hnone
  exact absurd (hnone ▸ hf) List.not_mem_nil

end Draft

theorem AnalyzeQuery.accompanied_draft (q : AnalyzeQuery) : q.draft.Accompanied := by
  refine q.draftFields_run ?_ (fun d s _ h => h.addKey s.1 _)
    (fun d f _ h => h.addField q.isFaceted f) fun _ d f hf _ => Draft.accompanied_addTotal hf
  exact fun _ => ⟨q.bare_draftKeys.fields, q.bare_draftKeys.totals⟩

/-- A query that plans has a group key or a field. -/
theorem AnalyzePlan.nonempty_of_ofQuery {q : AnalyzeQuery} {plan : AnalyzePlan}
    (h : AnalyzePlan.ofQuery q = .ok plan) : q.draft.keys ≠ [] ∨ q.draft.fields ≠ [] := by
  simp only [AnalyzePlan.ofQuery] at h
  split at h
  · cases h
  · split at h
    · cases h
    · next hempty =>
      rw [Bool.and_eq_true, List.isEmpty_iff, List.isEmpty_iff, not_and_or] at hempty
      exact hempty

namespace Sql
variable {r : Reader} {p : AnalyzePlan} {g : Group} {f : Facet} {s body : Select}

theorem baseQuery_items (h : r.baseQuery p g = .ok s) :
    s.items = [] ↔ g.keys = [] ∧ g.fields = [] := by
  simp only [Reader.baseQuery, bind_ok, pure_ok] at h
  obtain ⟨table, -, explode, -, filter, -, keys, hkeys, fields, hfields, rfl⟩ := h
  rw [List.append_eq_nil_iff, mapM_eq_nil hkeys, mapM_eq_nil hfields]

theorem facetQuery_items (h : facetQuery f = .ok s) : s.items ≠ [] := by
  simp only [facetQuery, bind_ok, pure_ok] at h
  obtain ⟨partition, -, items, -, rfl⟩ := h
  exact List.cons_ne_nil _ _

theorem facetBody_items (h : facetBody f = .ok s) :
    s.items = [] ↔ f.partitionKeys = [] ∧ f.totals = [] ∧ f.arrays = [] := by
  simp only [facetBody, bind_ok, pure_ok] at h
  obtain ⟨partition, hpartition, totals, htotals, arrays, harrays, rfl⟩ := h
  rw [List.append_eq_nil_iff, List.append_eq_nil_iff, List.map_eq_nil_iff, and_assoc,
    mapM_eq_nil hpartition, mapM_eq_nil htotals, mapM_eq_nil harrays]

theorem plainBody_items {shown : List String} (h : plainBody p = .ok s)
    (hshown : p.stages.findSome? Stage.project? = some shown) : s.items = [] ↔ shown = [] := by
  rw [plainBody, hshown] at h
  obtain ⟨names, hnames, rfl⟩ := bind_pure_ok.mp h
  rw [List.map_eq_nil_iff, mapM_eq_nil hnames]

theorem paged_items (h : paged p body = .ok s) : s.items = body.items := by
  obtain ⟨order, -, rfl⟩ := bind_pure_ok.mp h
  rfl

/-- The count of rows is an item of every list, and the other searches have one item. -/
theorem search_items {p : SearchPlan} {st : Statement} (h : r.search p = .ok st) :
    st.subqueries = [] ∧ st.body.items ≠ [] := by
  simp only [Reader.search, bind_ok] at h
  obtain ⟨table, -, explode, -, filter, -, h⟩ := h
  cases hmode : p.mode with
  | count =>
    rw [hmode] at h
    obtain rfl := pure_ok.mp h
    exact ⟨rfl, List.cons_ne_nil _ _⟩
  | distinct c =>
    rw [hmode] at h
    obtain ⟨e, -, rfl⟩ := bind_pure_ok.mp h
    exact ⟨rfl, List.cons_ne_nil _ _⟩
  | rows l =>
    rw [hmode] at h
    obtain ⟨body, hbody, rfl⟩ := bind_pure_ok.mp h
    simp only [Reader.listed, bind_ok, pure_ok] at hbody
    obtain ⟨columns, -, computed, -, order, -, rfl⟩ := hbody
    exact ⟨rfl, List.append_ne_nil_of_right_ne_nil _ (List.cons_ne_nil _ _)⟩

variable {w : Warehouse} {q : AnalyzeQuery} {plan : AnalyzePlan} {st : Statement}

/-- Without facets every group key and every field is shown, and there are some. -/
theorem shown_nonempty (h : AnalyzePlan.ofQuery q = .ok plan) : q.draft.visible false ≠ [] := by
  rcases AnalyzePlan.nonempty_of_ofQuery h with hkeys | hfields
  · exact List.append_ne_nil_of_left_ne_nil (mt List.map_eq_nil_iff.mp hkeys) _
  · refine List.append_ne_nil_of_right_ne_nil _ (mt List.map_eq_nil_iff.mp fun hplanned => ?_)
    exact hfields (q.accompanied_draft hplanned).1

/-- The subqueries of an analysis have items. So has the body, unless it shows facets where every
group key is a facet key and there are no fields. -/
theorem analysis_items (hplan : AnalyzePlan.ofQuery q = .ok plan)
    (h : Statement.ofAnalyzePlan w plan = .ok st) :
    (∀ s ∈ st.subqueries, s.2.items ≠ []) ∧
      (st.body.items ≠ [] ↔ ∀ f ∈ plan.facet?, f.partitionKeys ≠ [] ∨ f.arrays ≠ []) := by
  rw [Statement.ofAnalyzePlan, Reader.analysis, AnalyzePlan.group_of_ofQuery hplan] at h
  obtain ⟨base, hbase, h⟩ := bind_ok.mp h
  have hitems : base.items ≠ [] := by
    rw [Ne, baseQuery_items hbase, not_and_or]
    exact AnalyzePlan.nonempty_of_ofQuery hplan
  split at h
  · next f hf =>
    simp only [bind_ok, pure_ok] at h
    obtain ⟨facets, hfacets, body, hbody, paged, hpaged, rfl⟩ := h
    have htotals : f.arrays = [] → f.totals = [] := by
      intro harrays
      obtain ⟨-, rfl⟩ := AnalyzePlan.facet_of_ofQuery hplan hf
      exact (q.accompanied_draft (List.map_eq_nil_iff.mp harrays)).2
    constructor
    · simp [hitems, facetQuery_items hfacets]
    · rw [paged_items hpaged, Ne, facetBody_items hbody, hf]
      simp only [Option.mem_some_iff, forall_eq', ne_eq]
      tauto
  · next hf =>
    simp only [bind_ok, pure_ok] at h
    obtain ⟨body, hbody, paged, hpaged, rfl⟩ := h
    have hshown : plan.stages.findSome? Stage.project? = some (q.draft.visible false) := by
      obtain ⟨-, rfl⟩ := AnalyzePlan.ofQuery_ok hplan
      rw [AnalyzePlan.facet?, q.facet_stages, ite_eq_right_iff] at hf
      have hplain : q.isFaceted = false := by
        cases hfaceted : q.isFaceted with
        | false => rfl
        | true => cases hf hfaceted
      rw [q.project_stages, hplain]
    constructor
    · simp [hitems]
    · rw [paged_items hpaged, Ne, plainBody_items hbody hshown, hf]
      refine iff_of_true (shown_nonempty hplan) fun f hnone => ?_
      cases hnone

/-- Every select of a statement has items, but for the body of an analysis that shows facets: it has
none if every group key is a facet key and there are no fields. -/
theorem select_items (w : Warehouse) :
    (∀ q plan st, AnalyzePlan.ofQuery q = .ok plan → Statement.ofAnalyzePlan w plan = .ok st →
      (∀ s ∈ st.subqueries, s.2.items ≠ []) ∧
        (st.body.items ≠ [] ↔ ∀ f ∈ plan.facet?, f.partitionKeys ≠ [] ∨ f.arrays ≠ [])) ∧
    ∀ p st, Statement.ofSearchPlan w p = .ok st →
      (∀ s ∈ st.subqueries, s.2.items ≠ []) ∧ st.body.items ≠ [] := by
  refine ⟨fun q plan st hplan h => analysis_items hplan h, fun p st h => ?_⟩
  obtain ⟨hnone, hbody⟩ := search_items h
  exact ⟨by simp [hnone], hbody⟩

/-- The lists of costs over regions have a row for each day and provider. -/
theorem select_items_region :
    ∃ plan st, AnalyzePlan.ofQuery regionQuery = .ok plan ∧
      Statement.ofAnalyzePlan {} plan = .ok st ∧ (∀ s ∈ st.subqueries, s.2.items ≠ []) ∧
      st.body.items ≠ [] := by
  have hplan : AnalyzePlan.ofQuery regionQuery = .ok _ := rfl
  obtain ⟨hsubqueries, hbody⟩ := (select_items {}).1 _ _ _ hplan rfl
  refine ⟨_, _, hplan, rfl, hsubqueries, hbody.mpr fun f hf => Or.inl ?_⟩
  obtain rfl := Option.some.inj hf
  decide

/-- Lists over the providers, which are the only group key, and no fields to list. -/
def facetsOnlyRequest : Request where
  granularity := some "ACCUMULATED"
  start := some "2024-02"
  finish := some "2024-12"
  groupBy := [.str "provider"]
  fieldGroup := [.str "provider"]

def facetsOnlyQuery : AnalyzeQuery := { costsByRegion with
  granularity := .accumulated
  window := ⟨leapDay.firstOfMonth, leapDay.lastOfYear⟩
  fields := []
  fieldGroup := [⟨"provider", "provider"⟩]
  sort := []
  page := none }

/-- The body is left with nothing to select. -/
theorem facetsOnlyQuery_no_items :
    ∃ plan st, AnalyzeQuery.ofRequest {} facetsOnlyRequest = .ok facetsOnlyQuery ∧
      AnalyzePlan.ofQuery facetsOnlyQuery = .ok plan ∧
      Statement.ofAnalyzePlan {} plan = .ok st ∧ st.body.items = [] :=
  ⟨_, _, rfl, rfl, rfl, rfl⟩

end Sql
end CostQuery

import CostQuery.Pipeline.Compile
import CostQuery.Proofs.Plan.Sources

/-! Plans of checked queries always become pipelines. -/

namespace CostQuery.Pipeline
variable {w : Warehouse} {columns : List Column}

theorem exists_chained (op : Arithmetic) {operands : List Expr} (h : operands ≠ []) :
    ∃ x, chained op operands = .ok x := by
  cases operands with
  | nil => exact absurd rfl h
  | cons first rest => exact ⟨_, rfl⟩

theorem computedAll_eq (w : Warehouse) (es : List Computed) :
    computedAll w es = es.mapM (computed w) := by
  induction es with
  | nil => rfl
  | cons e rest ih => rw [computedAll, ih, List.mapM_cons]

theorem exists_computed {e : Computed} (h : e.Filled) : ∃ x, computed w e = .ok x := by
  induction h with
  | column | literal | size => exact ⟨_, rfl⟩
  | arithmetic op nonempty _ ih =>
    obtain ⟨xs, hxs⟩ := exists_mapM_ok ih
    have hne : xs ≠ [] := by
      rintro rfl
      exact nonempty (List.forall₂_nil_right_iff.mp (mapM_ok hxs))
    obtain ⟨x, hx⟩ := exists_chained op hne
    refine ⟨x, ?_⟩
    rw [computed, computedAll_eq, hxs]
    exact hx

theorem exists_keyExpr {k : GroupKey} (h : k.source.Reads columns) :
    ∃ x, keyExpr w k = .ok x := by
  obtain ⟨ident, source⟩ := k
  cases source with
  | column | bucket => exact ⟨_, rfl⟩
  | computed e => exact exists_computed h.1

theorem exists_accumulator {f : AggregateField} (h : f.Reads columns) :
    ∃ x, accumulator w f = .ok x := by
  obtain ⟨ident, aggregate, input, hidden⟩ := f
  cases input with
  | rows =>
    obtain rfl : aggregate = .count := h.counts rfl
    exact ⟨_, rfl⟩
  | column | slots => exact ⟨_, rfl⟩

/-- Rows are grouped under the keys' identifiers, with an accumulator for every field. -/
theorem exists_groupStages {g : Group} (hkeys : ∀ k ∈ g.keys, k.source.Reads columns)
    (hfields : ∀ f ∈ g.fields, f.Reads columns) :
    ∃ key accumulators, key.map Prod.fst = g.keys.map (·.ident) ∧
      accumulators.map Prod.fst = g.fields.map (·.ident) ∧
      groupStages w g = .ok [.group key accumulators,
        .project (lifted (g.keys.map (·.ident)) ++ g.fields.map fun f => (f.ident, .keep))] := by
  obtain ⟨key, hkey⟩ := exists_mapM_ok (f := fun k : GroupKey =>
    (do return (k.ident, ← keyExpr w k) : Compiled (String × Expr))) fun k hk => by
      obtain ⟨x, hx⟩ := exists_keyExpr (w := w) (hkeys k hk)
      exact ⟨_, bind_pure_ok.mpr ⟨x, hx, rfl⟩⟩
  obtain ⟨accumulators, haccumulators⟩ := exists_mapM_ok (f := fun f : AggregateField =>
    (do return (f.ident, ← accumulator w f) : Compiled (String × Accumulator))) fun f hf => by
      obtain ⟨x, hx⟩ := exists_accumulator (w := w) (hfields f hf)
      exact ⟨_, bind_pure_ok.mpr ⟨x, hx, rfl⟩⟩
  refine ⟨key, accumulators, map_of_mapM_ok hkey ?_, map_of_mapM_ok haccumulators ?_, ?_⟩
  · intro k entry hentry
    obtain ⟨x, -, rfl⟩ := bind_pure_ok.mp hentry
    rfl
  · intro f entry hentry
    obtain ⟨x, -, rfl⟩ := bind_pure_ok.mp hentry
    rfl
  · rw [groupStages, hkey, haccumulators]
    rfl

/-- A pipeline is what its plan's stages become. -/
theorem mem_ofPlan {p : AnalyzePlan} {ss : List Stage} (h : ofPlan w p = .ok ss) {x : Stage} :
    x ∈ ss ↔ ∃ s ∈ p.stages, ∃ out, stages w s = .ok out ∧ x ∈ out := by
  obtain ⟨outs, houts, rfl⟩ := bind_pure_ok.mp h
  have hall := mapM_ok houts
  rw [List.mem_flatten]
  constructor
  · rintro ⟨out, hout, hx⟩
    obtain ⟨s, hs, hso⟩ := exists_of_forall₂ hall.flip hout
    exact ⟨s, hs, out, hso, hx⟩
  · rintro ⟨s, hs, out, hso, hx⟩
    obtain ⟨out', hout', hso'⟩ := exists_of_forall₂ hall hs
    obtain rfl := Except.ok.inj (hso.symm.trans hso')
    exact ⟨out, hout', hx⟩

theorem exists_ofPlan {p : AnalyzePlan}
    (h : ∀ g, .group g ∈ p.stages → (∀ k ∈ g.keys, k.source.Reads columns) ∧
      ∀ f ∈ g.fields, f.Reads columns) : ∃ ss, ofPlan w p = .ok ss := by
  have hstages : ∀ s ∈ p.stages, ∃ out, stages w s = .ok out := by
    intro s hs
    cases s with
    | group g =>
      obtain ⟨hkeys, hfields⟩ := h g hs
      obtain ⟨key, accumulators, -, -, hgroup⟩ := exists_groupStages (w := w) hkeys hfields
      exact ⟨_, hgroup⟩
    | unwind | «match» | facet | sort | skip | limit | project => exact ⟨_, rfl⟩
  obtain ⟨outs, houts⟩ := exists_mapM_ok hstages
  exact ⟨outs.flatten, bind_pure_ok.mpr ⟨outs, houts, rfl⟩⟩

end CostQuery.Pipeline

namespace CostQuery.AnalyzeQuery
variable {limits : RangeLimits} {r : Request} {q : AnalyzeQuery} {plan : AnalyzePlan}

theorem exists_pipeline (hq : ofRequest limits r = .ok q) (h : AnalyzePlan.ofQuery q = .ok plan)
    (w : Warehouse) : ∃ ss, Pipeline.ofPlan w plan = .ok ss := by
  obtain ⟨-, rfl⟩ := AnalyzePlan.ofQuery_ok h
  have hgroup : ∀ g, .group g ∈ q.stages q.draft → (∀ k ∈ g.keys, k.source.Reads q.columns) ∧
      ∀ f ∈ g.fields, f.Reads q.columns := by
    intro g hg
    obtain rfl : g = ⟨q.draft.keys, q.draft.fields⟩ := by
      simpa using (q.mem_stages q.draft).mp hg
    exact ⟨(draft_reads hq).keys, (draft_reads hq).fields⟩
  exact Pipeline.exists_ofPlan hgroup

end CostQuery.AnalyzeQuery

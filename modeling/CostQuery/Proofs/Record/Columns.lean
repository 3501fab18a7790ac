import CostQuery.Proofs.Pipeline.Columns
import CostQuery.Proofs.Sql.Columns
import CostQuery.Proofs.Sql.Refusals

/-! The columns of result rows, in both stores, and the partitions that they go by. -/

namespace CostQuery

namespace AnalyzeQuery
variable {limits : RangeLimits} {r : Request} {q : AnalyzeQuery} {plan : AnalyzePlan}
  {w : Warehouse} {ss : List Pipeline.Stage} {st : Sql.Statement} {f : Facet} {g : Group}

theorem placed (h : AnalyzePlan.ofQuery q = .ok plan) (hg : plan.group? = some g) :
    Sql.Placed g plan.facet? (q.draft.visible q.isFaceted)
      ((plan.stages.findSome? Stage.sort?).getD []) := by
  obtain rfl := Option.some.inj ((AnalyzePlan.group_of_ofQuery h).symm.trans hg)
  have hfacet : ∀ f ∈ plan.facet?, q.isFaceted = true ∧ f = q.draft.facet :=
    fun f hf => AnalyzePlan.facet_of_ofQuery h hf
  constructor
  case ordered =>
    obtain ⟨-, rfl⟩ := AnalyzePlan.ofQuery_ok h
    intro k hk
    rw [q.sort_stages] at hk
    exact q.draft_scoped.order_visible
      (fun hnone => (q.draftFields_totalOf hnone _).trans q.draftKeys_totalOf) hk
  case plain =>
    obtain ⟨-, rfl⟩ := AnalyzePlan.ofQuery_ok h
    intro hnone
    rw [AnalyzePlan.facet?, q.facet_stages] at hnone
    split at hnone
    · cases hnone
    · next hplain =>
      rw [Draft.visible, if_neg hplain]
      exact List.append_subset.mpr ⟨List.subset_append_left _ _,
        List.subset_append_of_subset_right _ q.draft_scoped.planned_subset⟩
  case faceted =>
    intro f hf
    obtain ⟨hfaceted, rfl⟩ := hfacet f hf
    rw [Draft.visible, if_pos hfaceted]
    rfl
  case keys =>
    intro f hf
    obtain ⟨-, rfl⟩ := hfacet f hf
    exact q.draft_scoped.partition_perm.1.subset
  case arrays =>
    intro f hf
    obtain ⟨-, rfl⟩ := hfacet f hf
    exact q.draft_scoped.planned_subset
  case totals =>
    intro f hf
    obtain ⟨-, rfl⟩ := hfacet f hf
    exact q.draft_scoped.totals_read

/-- Partitions go by identifiers, and the operator of an array is none. -/
theorem partitionKeys_ne_push (h : AnalyzePlan.ofQuery q = .ok plan) (hf : f ∈ plan.facet?) :
    f.partitionKeys ≠ ["$push"] := by
  obtain ⟨-, rfl⟩ := AnalyzePlan.facet_of_ofQuery h hf
  intro heq
  have hpush : "$push" ∈ q.draft.facet.partitionKeys := by simp [heq]
  have hregistered := q.draft_scoped.registered
    (List.mem_append_left _ (List.mem_of_mem_filter hpush))
  obtain ⟨e, he, hident⟩ := List.mem_map.mp hregistered
  have hname := Sql.isName_ofName e.name
  rw [← q.draft_scoped.registry_valid.made e he, hident] at hname
  revert hname
  decide

/-- The last projection keeps the columns that the last select gives. Every select reads columns of
the one before it. Windows, facets and the second group go by one partition, unless an array goes
by the name of the key of a group. -/
theorem columns_alike (hq : ofRequest limits r = .ok q) (h : AnalyzePlan.ofQuery q = .ok plan)
    (hss : Pipeline.ofPlan w plan = .ok ss) (hst : Sql.Statement.ofAnalyzePlan w plan = .ok st) :
    (∃ kept, (Pipeline.keptColumns ss).getLast? = some kept ∧ kept.Nodup ∧ st.outputs.Nodup ∧
      kept.Perm st.outputs) ∧
    st.Chained ∧
    ∀ f ∈ plan.facet?, (∀ window ∈ st.windows, window = f.partitionKeys) ∧
      (∃ names, st.body.grouping = .keys names ∧ names.map (·.text) = f.partitionKeys) ∧
      ∃ first second, Pipeline.groupKeys ss = [first, second] ∧
        (second = f.partitionKeys ↔ "_id" ∉ f.arrays) := by
  obtain ⟨kept, hkept, hnodup, hperm⟩ := keptColumns_ofPlan h hss
  have hshown : plan.stages.findSome? Stage.project? = some (q.draft.visible q.isFaceted) := by
    obtain ⟨-, rfl⟩ := AnalyzePlan.ofQuery_ok h
    exact q.project_stages q.draft
  obtain ⟨hchained, houtputs, hpartition⟩ :=
    Sql.analysis_columns hst (fun g hg => placed h hg) hshown
  rw [← houtputs] at hperm
  refine ⟨⟨kept, hkept, hnodup, hperm.nodup_iff.mp hnodup, hperm⟩, hchained, fun f hf => ?_⟩
  obtain ⟨hwindows, hgrouping⟩ := hpartition f hf
  obtain ⟨first, hgroups⟩ := groupKeys_ofPlan hq h hss hf
  refine ⟨hwindows, hgrouping, first, _, hgroups, ?_⟩
  split
  · next hid => exact iff_of_false (partitionKeys_ne_push h hf).symm (not_not.mpr hid)
  · next hid => exact iff_of_true rfl hid

end AnalyzeQuery

theorem columns_alike_region :
    ∃ plan ss st facet kept, AnalyzePlan.ofQuery regionQuery = .ok plan ∧
      Pipeline.ofPlan {} plan = .ok ss ∧ Sql.Statement.ofAnalyzePlan {} plan = .ok st ∧
      plan.facet? = some facet ∧ (Pipeline.keptColumns ss).getLast? = some kept ∧
      kept.Perm st.outputs ∧ st.Chained ∧ "_total_cost" ∈ st.outputs ∧
      ∃ first, Pipeline.groupKeys ss = [first, facet.partitionKeys] := by
  have h : AnalyzePlan.ofQuery regionQuery = .ok _ := rfl
  obtain ⟨⟨kept, hkept, -, -, hperm⟩, hchained, hfacet⟩ :=
    AnalyzeQuery.columns_alike (w := {}) ofRequest_regionRequest h rfl rfl
  obtain ⟨-, -, first, second, hgroups, hsecond⟩ := hfacet _ rfl
  refine ⟨_, _, _, _, kept, h, rfl, rfl, rfl, hkept, hperm, hchained, by decide, first, ?_⟩
  rw [hgroups, hsecond.mpr (by decide)]

/-- The costs under the name of the key of a group. -/
def idRequest : Request :=
  { regionRequest with fields := [("_id", { operator := some "sum", key := some "cost" })] }

def idQuery : AnalyzeQuery := { regionQuery with fields := [⟨"_id", .sum, some "cost", []⟩] }

/-- The second group goes by the array, and not by the partition. -/
theorem idRequest_partition_lost :
    ∃ plan ss st facet first, AnalyzeQuery.ofRequest {} idRequest = .ok idQuery ∧
      AnalyzePlan.ofQuery idQuery = .ok plan ∧ Pipeline.ofPlan {} plan = .ok ss ∧
      Sql.Statement.ofAnalyzePlan {} plan = .ok st ∧ plan.facet? = some facet ∧
      facet.partitionKeys = ["date", "provider"] ∧
      Pipeline.groupKeys ss = [first, ["$push"]] :=
  ⟨_, _, _, _, _, rfl, rfl, rfl, rfl, rfl, rfl, rfl⟩

end CostQuery

import CostQuery.Proofs.Plan.Scope

/-! What a plan is made of, read off its query. -/

namespace CostQuery

namespace AnalyzeQuery
variable (q : AnalyzeQuery) (d : Draft)

/-- The draft that the plan is read off. -/
def draft : Draft := q.draftFields q.draftKeys

theorem draft_scoped : q.draft.Scoped := q.scoped_draftFields q.keyed_draftKeys.columns_scoped

theorem draft_facetKeys : q.draft.facetKeys = q.draftKeys.facetKeys :=
  q.draftFields_facetKeys q.draftKeys

/-- A search through the stages tries one kind after the other. -/
theorem findSome?_stages {β : Type} (pick : Stage → Option β) :
    (q.stages d).findSome? pick =
      (q.unwind.bind fun path => pick (.unwind (Column.ofKey path))).or
        ((q.predicate?.bind fun p => pick (.match p)).or
          ((pick (.group ⟨d.keys, d.fields⟩)).or
            ((if q.isFaceted then pick (.facet d.facet) else none).or
              ((if (d.order (d.visible q.isFaceted) q.sort).isEmpty then none
                  else pick (.sort (d.order (d.visible q.isFaceted) q.sort))).or
                ((q.page.bind fun page =>
                    (pick (.skip page.offset)).or (pick (.limit (addCounts page.limit 1)))).or
                  (pick (.project (d.visible q.isFaceted)))))))) := by
  have hunwind : ((q.unwind.map fun path => Stage.unwind (Column.ofKey path)).toList).findSome?
      pick = q.unwind.bind fun path => pick (.unwind (Column.ofKey path)) := by
    cases q.unwind <;> simp
  have hmatch : ((q.predicate?.map Stage.match).toList).findSome? pick =
      q.predicate?.bind fun p => pick (.match p) := by
    cases q.predicate? <;> simp
  have hpage : q.pageStages.findSome? pick = q.page.bind fun page =>
      (pick (.skip page.offset)).or (pick (.limit (addCounts page.limit 1))) := by
    rw [pageStages]
    cases q.page with
    | none => rfl
    | some page =>
      rw [List.findSome?_cons, List.findSome?_singleton, Option.bind_some]
      cases pick (.skip page.offset) <;> rfl
  simp only [stages, List.findSome?_append, hunwind, hmatch, hpage, Option.or_assoc,
    List.findSome?_singleton, apply_ite (List.findSome? pick), List.findSome?_nil]

theorem mem_stages {s : Stage} : s ∈ q.stages d ↔
    (∃ path ∈ q.unwind, s = .unwind (Column.ofKey path)) ∨ (∃ p ∈ q.predicate?, s = .match p) ∨
      s = .group ⟨d.keys, d.fields⟩ ∨ (q.isFaceted = true ∧ s = .facet d.facet) ∨
      (d.order (d.visible q.isFaceted) q.sort ≠ [] ∧
        s = .sort (d.order (d.visible q.isFaceted) q.sort)) ∨
      (∃ page ∈ q.page, s = .skip page.offset ∨ s = .limit (addCounts page.limit 1)) ∨
      s = .project (d.visible q.isFaceted) := by
  have hpage : s ∈ q.pageStages ↔
      ∃ page ∈ q.page, s = .skip page.offset ∨ s = .limit (addCounts page.limit 1) := by
    rw [pageStages]
    cases q.page <;> simp
  have hunwind : s ∈ (q.unwind.map fun path => Stage.unwind (Column.ofKey path)).toList ↔
      ∃ path ∈ q.unwind, s = .unwind (Column.ofKey path) := by
    cases q.unwind <;> simp
  have hmatch : s ∈ (q.predicate?.map Stage.match).toList ↔
      ∃ p ∈ q.predicate?, s = .match p := by
    cases q.predicate? <;> simp
  have hfacet : s ∈ (if q.isFaceted then [Stage.facet d.facet] else []) ↔
      q.isFaceted = true ∧ s = .facet d.facet := by
    split <;> simp_all
  simp only [stages, List.mem_append, hpage, hunwind, hmatch, hfacet, List.mem_singleton,
    or_assoc]
  split <;> simp_all

theorem unwind_stages :
    (q.stages d).findSome? Stage.unwind? = q.unwind.map Column.ofKey := by
  cases hunwind : q.unwind <;> simp [findSome?_stages, Stage.unwind?, hunwind]

theorem match_stages : (q.stages d).findSome? Stage.match? = q.predicate? := by
  cases hmatch : q.predicate? <;> simp [findSome?_stages, Stage.match?, hmatch]

theorem project_stages :
    (q.stages d).findSome? Stage.project? = some (d.visible q.isFaceted) := by
  simp [findSome?_stages, Stage.project?]

theorem group_stages : (q.stages d).findSome? Stage.group? = some ⟨d.keys, d.fields⟩ := by
  simp [findSome?_stages, Stage.group?]

theorem facet_stages :
    (q.stages d).findSome? Stage.facet? = if q.isFaceted then some d.facet else none := by
  simp [findSome?_stages, Stage.facet?]

theorem sort_stages : ((q.stages d).findSome? Stage.sort?).getD [] =
    d.order (d.visible q.isFaceted) q.sort := by
  by_cases horder : d.order (d.visible q.isFaceted) q.sort = [] <;>
    simp [findSome?_stages, Stage.sort?, horder]

theorem skip_stages : (q.stages d).findSome? Stage.skip? = q.page.map Page.offset := by
  cases hpage : q.page <;> simp [findSome?_stages, Stage.skip?, hpage]

theorem limit_stages :
    (q.stages d).findSome? Stage.limit? = q.page.map fun page => addCounts page.limit 1 := by
  cases hpage : q.page <;> simp [findSome?_stages, Stage.limit?, hpage]

end AnalyzeQuery

/-- A query that plans has its columns from the draft, and a facet key if it asks for a facet. -/
theorem AnalyzePlan.ofQuery_ok {q : AnalyzeQuery} {plan : AnalyzePlan}
    (h : AnalyzePlan.ofQuery q = .ok plan) :
    (q.isFaceted = true → q.draft.facetKeys ≠ []) ∧
      plan = {
        granularity := q.granularity
        stages := q.stages q.draft
        outputs := q.draft.outputs (q.draft.visible q.isFaceted)
        pageLimit := q.page.map (·.limit)
        collisions := q.draft.registry.collisions } := by
  simp only [AnalyzePlan.ofQuery] at h
  split at h
  · cases h
  · next hfaceted =>
    split at h
    · cases h
    · refine ⟨fun hf hempty => ?_, (Except.ok.inj h).symm⟩
      rw [q.draft_facetKeys] at hempty
      simp [hf, hempty] at hfaceted

namespace AnalyzePlan
variable {q : AnalyzeQuery} {plan : AnalyzePlan}

theorem mem_of_group {g : Group} (h : plan.group? = some g) : .group g ∈ plan.stages := by
  obtain ⟨s, hs, hg⟩ := List.exists_of_findSome?_eq_some h
  cases s with
  | group g' => exact Option.some.inj hg ▸ hs
  | unwind | «match» | facet | sort | skip | limit | project => cases hg

theorem mem_of_facet {f : Facet} (h : plan.facet? = some f) : .facet f ∈ plan.stages := by
  obtain ⟨s, hs, hf⟩ := List.exists_of_findSome?_eq_some h
  cases s with
  | facet f' => exact Option.some.inj hf ▸ hs
  | unwind | «match» | group | sort | skip | limit | project => cases hf

theorem group_of_ofQuery (h : ofQuery q = .ok plan) :
    plan.group? = some ⟨q.draft.keys, q.draft.fields⟩ := by
  obtain ⟨-, rfl⟩ := ofQuery_ok h
  exact q.group_stages q.draft

theorem facet_of_ofQuery (h : ofQuery q = .ok plan) {f : Facet} (hf : plan.facet? = some f) :
    q.isFaceted = true ∧ f = q.draft.facet := by
  obtain ⟨-, rfl⟩ := ofQuery_ok h
  rw [facet?, q.facet_stages] at hf
  split at hf
  · next hfaceted => exact ⟨hfaceted, (Option.some.inj hf).symm⟩
  · cases hf

end AnalyzePlan
end CostQuery

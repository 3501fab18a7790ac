import CostQuery.Plan.Analyze
import CostQuery.Proofs.Plan.Keys

/-! Analysis plans are well formed: their stages are in one order, and name columns that exist. -/

namespace CostQuery

namespace Draft
variable {d : Draft} {ident : String} {faceted : Bool}

/-! What the columns shown are. -/

theorem Scoped.partition_perm (h : d.Scoped) :
    (d.partitionKeys ++ d.facetKeys).Perm d.keyIdents ∧
      (d.partitionKeys ++ d.facetKeys).Nodup := by
  have hkeys : d.keyIdents.Nodup := (List.nodup_append.mp h.columns_nodup).1
  have hnodup : (d.partitionKeys ++ d.facetKeys).Nodup := by
    refine List.nodup_append.mpr ⟨hkeys.filter _, h.facetKeys_nodup, ?_⟩
    rintro a ha b hb rfl
    simp [partitionKeys, hb] at ha
  refine ⟨(List.perm_ext_iff_of_nodup hnodup hkeys).mpr fun ident => ?_, hnodup⟩
  by_cases hfacet : ident ∈ d.facetKeys
  · simp [hfacet, h.facetKeys_subset hfacet]
  · simp [hfacet, partitionKeys]

theorem Scoped.visible_nodup (h : d.Scoped) : (d.visible faceted).Nodup := by
  obtain ⟨hkeys, hrest, hkr⟩ := List.nodup_append.mp h.columns_nodup
  obtain ⟨hfields, htotals, hft⟩ := List.nodup_append.mp hrest
  have hplanned : ∀ ident ∈ d.plannedIdents, ident ∈ d.fieldIdents := h.planned_subset
  cases faceted with
  | false =>
    refine List.nodup_append.mpr ⟨hkeys, h.planned_nodup, fun a ha b hb => ?_⟩
    exact hkr a ha b (List.mem_append_left _ (hplanned b hb))
  | true =>
    have hpartition : ∀ ident ∈ d.partitionKeys, ident ∈ d.keyIdents :=
      fun ident hident => List.mem_of_mem_filter hident
    refine List.nodup_append.mpr ⟨List.nodup_append.mpr ⟨hkeys.filter _, htotals, ?_⟩,
      h.planned_nodup, ?_⟩
    · intro a ha b hb
      exact hkr a (hpartition a ha) b (List.mem_append_right _ hb)
    · intro a ha b hb
      rcases List.mem_append.mp ha with ha | ha
      · exact hkr a (hpartition a ha) b (List.mem_append_left _ (hplanned b hb))
      · exact (hft b (hplanned b hb) a ha).symm

theorem visible_cases (hv : ident ∈ d.visible faceted) :
    ident ∈ d.keyIdents ∨ ident ∈ d.plannedIdents ∨ ident ∈ d.totalIdents := by
  cases faceted with
  | false =>
    rcases List.mem_append.mp hv with hv | hv
    · exact Or.inl hv
    · exact Or.inr (Or.inl hv)
  | true =>
    rcases List.mem_append.mp hv with hv | hv
    · rcases List.mem_append.mp hv with hv | hv
      · exact Or.inl (List.mem_of_mem_filter hv)
      · exact Or.inr (Or.inr hv)
    · exact Or.inr (Or.inl hv)

theorem Scoped.visible_registered (h : d.Scoped) : d.visible faceted ⊆ d.registry.idents := by
  intro ident hv
  refine h.registered ?_
  rcases visible_cases hv with hv | hv | hv
  · exact List.mem_append_left _ hv
  · exact List.mem_append_right _ (List.mem_append_left _ (h.planned_subset hv))
  · exact List.mem_append_right _ (List.mem_append_right _ hv)

theorem Scoped.hidden_not_visible (h : d.Scoped) {f : AggregateField} (hf : f ∈ d.fields)
    (hidden : f.hidden = true) : f.ident ∉ d.visible faceted := by
  obtain ⟨-, hrest, hkr⟩ := List.nodup_append.mp h.columns_nodup
  obtain ⟨hfields, -, hft⟩ := List.nodup_append.mp hrest
  have hmem : f.ident ∈ d.fieldIdents := List.mem_map_of_mem hf
  intro hv
  rcases visible_cases hv with hv | hv | hv
  · exact hkr _ hv _ (List.mem_append_left _ hmem) rfl
  · obtain ⟨p, hp, hident⟩ := List.mem_map.mp hv
    obtain ⟨field, hfield, heq, hshown⟩ := h.planned_shown p hp
    have hsame := List.inj_on_of_nodup_map hfields hfield hf (heq.trans hident)
    rw [hsame, hidden] at hshown
    cases hshown
  · exact hft _ hmem _ hv rfl

/-- Rows are sorted by columns shown; only with a facet are there totals to sort by. -/
theorem Scoped.order_visible (h : d.Scoped) (htotals : faceted = false → d.totalOf = [])
    {sort : List SortKey} {k : OrderKey} (hk : k ∈ d.order (d.visible faceted) sort) :
    k.ident ∈ d.visible faceted := by
  obtain ⟨s, -, hs⟩ := List.mem_filterMap.mp hk
  obtain ⟨ident, hident, rfl⟩ := Option.map_eq_some_iff.mp hs
  simp only [sortIdent?] at hident
  split at hident
  · next total htotal =>
    obtain rfl := Option.some.inj hident
    simp only [totalFor?, Option.bind_eq_bind, Option.bind_eq_some_iff] at htotal
    obtain ⟨field, -, t, ht, hpure⟩ := htotal
    obtain rfl := Option.some.inj hpure
    have hmem := List.mem_of_find?_eq_some ht
    cases faceted with
    | false => simp [htotals rfl] at hmem
    | true =>
      exact List.mem_append_left _ (List.mem_append_right _ (h.totalOf_total _ hmem))
  · exact List.contains_iff_mem.mp (Option.filter_eq_some_iff.mp hident).2

theorem Scoped.mem_outputs (h : d.Scoped) :
    ident ∈ (d.outputs (d.visible faceted)).map (·.ident) ↔
      ident ∈ d.visible faceted ∨ ident ∈ d.facetKeys := by
  have hregistered : ident ∈ d.visible faceted ∨ ident ∈ d.facetKeys →
      ident ∈ d.registry.idents := by
    rintro (hv | hf)
    · exact h.visible_registered hv
    · exact h.registered (List.mem_append_left _ (h.facetKeys_subset hf))
  simp only [outputs, List.mem_map, List.mem_filter, Bool.or_eq_true, List.contains_iff_mem]
  constructor
  · rintro ⟨e, ⟨-, hshown⟩, rfl⟩
    exact hshown
  · intro hshown
    obtain ⟨e, he, rfl⟩ := List.mem_map.mp (hregistered hshown)
    exact ⟨e, ⟨he, hshown⟩, rfl⟩

end Draft
namespace AnalyzeQuery
variable (q : AnalyzeQuery) {d : Draft}

/-! What is so at first and stays so with every step is so at the end of a run. -/

section
variable {P : Draft → Prop}

/-- The draft with the date and the group columns. -/
def groupDraft : Draft :=
  q.groupBy.foldl (fun d c => (d.addColumn c).2) (({} : Draft).addDate q.granularity)

theorem groupDraft_run (empty : P {}) (bucket : ∀ d p, P d → P (d.addKey "date" (.bucket p)).2)
    (column : ∀ d, ∀ c ∈ q.groupBy, P d → P (d.addColumn c).2) : P q.groupDraft := by
  have hdate : P (({} : Draft).addDate q.granularity) := by
    rw [Draft.addDate]
    split
    · next p _ => exact bucket {} p empty
    · exact empty
  exact List.foldlRecOn q.groupBy (fun d c => (d.addColumn c).2) hdate
    fun d h c hc => column d c hc h

theorem draftKeys_run (start : P q.groupDraft)
    (facet : ∀ d, ∀ c ∈ q.fieldGroup, P d → P (d.addFacet q.groupBy c)) : P q.draftKeys :=
  List.foldlRecOn q.fieldGroup (Draft.addFacet q.groupBy) start fun d h c hc => facet d c hc h

theorem draftFields_run (start : P d) (select : ∀ d, ∀ s ∈ q.select, P d → P (d.addSelect s.1 s.2))
    (field : ∀ d, ∀ f ∈ q.fields, P d → P (d.addField q.isFaceted f))
    (total : q.isFaceted = true → ∀ d, ∀ f ∈ d.planned, P d → P (d.addTotal f)) :
    P (q.draftFields d) := by
  have hselect := List.foldlRecOn q.select (fun d s => d.addSelect s.1 s.2) start
    fun d h s hs => select d s hs h
  have hfields := List.foldlRecOn q.fields (Draft.addField q.isFaceted) hselect
    fun d h f hf => field d f hf h
  rw [draftFields]
  split
  · next hfaceted =>
    -- The totals are those of the fields that were planned before the first of them.
    generalize q.fields.foldl (Draft.addField q.isFaceted) _ = d' at hfields ⊢
    have hrun := List.foldlRecOn (motive := fun d => P d ∧ d.planned = d'.planned) d'.planned
      Draft.addTotal ⟨hfields, rfl⟩ fun d hd f hf =>
        ⟨total hfaceted d f (hd.2 ▸ hf) hd.1, (d.planned_addTotal f).trans hd.2⟩
    exact hrun.1
  · exact hfields

end

theorem keyed_groupDraft : q.groupDraft.Keyed :=
  q.groupDraft_run Draft.keyed_empty (fun _ _ h => h.addKey _ _) fun _ _ _ h => h.addKey _ _

theorem keyed_draftKeys : q.draftKeys.Keyed :=
  q.draftKeys_run q.keyed_groupDraft fun _ c _ h => h.addFacet c

theorem keeps_groupDraft : Draft.Keeps {} q.groupDraft :=
  q.groupDraft_run (.refl {}) (fun d _ h => h.trans (d.keeps_addKey _ _))
    fun d _ _ h => h.trans (d.keeps_addKey _ _)

theorem draftKeys_totalOf : q.draftKeys.totalOf = [] :=
  q.draftKeys_run (P := fun d => d.totalOf = []) q.keeps_groupDraft.totalOf
    fun d c _ h => (d.totalOf_addFacet c).trans h

theorem draftKeys_facetKeys (h : q.isFaceted = false) : q.draftKeys.facetKeys = [] := by
  have hnone : q.fieldGroup = [] := by simpa [isFaceted] using h
  rw [draftKeys, hnone]
  exact q.keeps_groupDraft.facetKeys

theorem draftFields_facetKeys (d : Draft) : (q.draftFields d).facetKeys = d.facetKeys :=
  q.draftFields_run (P := fun d' => d'.facetKeys = d.facetKeys) rfl
    (fun d' _ _ h => (d'.keeps_addKey _ _).facetKeys.trans h)
    (fun d' f _ h => (d'.keeps_addField q.isFaceted f).facetKeys.trans h)
    fun _ d' f _ h => (d'.facetKeys_addTotal f).trans h

theorem draftFields_totalOf (h : q.isFaceted = false) (d : Draft) :
    (q.draftFields d).totalOf = d.totalOf :=
  q.draftFields_run (P := fun d' => d'.totalOf = d.totalOf) rfl
    (fun d' _ _ h => (d'.keeps_addKey _ _).totalOf.trans h)
    (fun d' f _ h => (d'.keeps_addField q.isFaceted f).totalOf.trans h)
    fun hfaceted => absurd hfaceted (Bool.not_eq_true _ ▸ h)

theorem scoped_draftFields (h : d.Scoped) : (q.draftFields d).Scoped :=
  q.draftFields_run h (fun _ s _ h => h.addKey s.1 _) (fun _ f _ h => h.addField q.isFaceted f)
    fun _ _ _ hf h => h.addTotal hf

/-- The window alone makes two tests. -/
theorem exists_predicate : ∃ p, q.predicate? = some p := by
  rw [predicate?, Predicate.all?, windowTests, List.cons_append, List.cons_append,
    List.flatMap_cons, List.flatMap_cons]
  exact ⟨_, rfl⟩

end AnalyzeQuery

/-- The stages of an analysis, each in its place. -/
structure PlanParts where
  unwind : Option Column
  predicate : Predicate
  group : Group
  facet : Option Facet
  /-- Empty if nothing is asked of the order. -/
  order : List OrderKey
  /-- The rows to skip, and those to fetch. -/
  page : Option (Nat × Nat)
  shown : List String

namespace PlanParts

def stages (p : PlanParts) : List Stage :=
  (p.unwind.map .unwind).toList ++ [.match p.predicate, .group p.group] ++
    (p.facet.map .facet).toList ++ (if p.order.isEmpty then [] else [.sort p.order]) ++
    (match p.page with
      | some (skip, limit) => [.skip skip, .limit limit]
      | none => []) ++
    [.project p.shown]

def keyIdents (p : PlanParts) : List String := p.group.keys.map (·.ident)

def fieldIdents (p : PlanParts) : List String := p.group.fields.map (·.ident)

/-- The columns of a plan are told apart, and every stage names columns of the stages before it. -/
structure WellScoped (p : PlanParts) (q : AnalyzeQuery) (outputs : List OutputColumn) : Prop where
  unwind_iff : p.unwind.isSome = true ↔ q.unwind.isSome = true
  page_iff : p.page.isSome = true ↔ q.page.isSome = true
  columns_nodup : (p.keyIdents ++ p.fieldIdents).Nodup
  facet_iff : p.facet.isSome = true ↔ q.fieldGroup ≠ []
  facetKeys_ne : ∀ f ∈ p.facet, f.facetKeys ≠ []
  facetKeys_nodup : ∀ f ∈ p.facet, (f.partitionKeys ++ f.facetKeys).Nodup
  facetKeys_perm : ∀ f ∈ p.facet, (f.partitionKeys ++ f.facetKeys).Perm p.keyIdents
  totals_read : ∀ f ∈ p.facet, ∀ t ∈ f.totals, t.total.reads ⊆ p.fieldIdents
  totals_new : ∀ f ∈ p.facet,
    (p.keyIdents ++ p.fieldIdents ++ f.totals.map (·.ident)).Nodup
  order_shown : ∀ k ∈ p.order, k.ident ∈ p.shown
  shown_nodup : p.shown.Nodup
  hidden_not_shown : ∀ f ∈ p.group.fields, f.hidden = true → f.ident ∉ p.shown
  outputs_idents : (outputs.map (·.ident)).Nodup
  outputs_names : (outputs.map (·.name)).Nodup
  mem_outputs : ∀ ident, ident ∈ outputs.map (·.ident) ↔
    ident ∈ p.shown ∨ ∃ f ∈ p.facet, ident ∈ f.facetKeys

end PlanParts

/-- The parts of a plan made from a draft. -/
def AnalyzeQuery.parts (q : AnalyzeQuery) (predicate : Predicate) (d : Draft) : PlanParts where
  unwind := q.unwind.map Column.ofKey
  predicate := predicate
  group := ⟨d.keys, d.fields⟩
  facet := if q.isFaceted then some d.facet else none
  order := d.order (d.visible q.isFaceted) q.sort
  page := q.page.map fun page => (page.offset, addCounts page.limit 1)
  shown := d.visible q.isFaceted

theorem AnalyzeQuery.stages_parts (q : AnalyzeQuery) {predicate : Predicate}
    (hp : q.predicate? = some predicate) (d : Draft) :
    q.stages d = (q.parts predicate d).stages := by
  have hunwind : (q.unwind.map fun path => Stage.unwind (Column.ofKey path)).toList =
      ((q.unwind.map Column.ofKey).map .unwind).toList := by rw [Option.map_map]; rfl
  have hfacet : (if q.isFaceted then [Stage.facet d.facet] else []) =
      ((if q.isFaceted then some d.facet else none).map .facet).toList := by split <;> rfl
  have hpage : q.pageStages =
      match q.page.map fun page => (page.offset, addCounts page.limit 1) with
      | some (skip, limit) => [.skip skip, .limit limit]
      | none => [] := by
    rw [pageStages]
    cases q.page <;> rfl
  simp only [stages, PlanParts.stages, parts, hp, hunwind, hfacet, hpage]
  simp

theorem AnalyzeQuery.mem_facet_parts {q : AnalyzeQuery} {predicate : Predicate} {d : Draft}
    {f : Facet} (hf : f ∈ (q.parts predicate d).facet) : q.isFaceted = true ∧ f = d.facet := by
  simp only [parts] at hf
  split at hf
  · next ht => exact ⟨ht, (Option.mem_some_iff.mp hf).symm⟩
  · cases hf

/-- Without a facet a draft has no facet keys and no totals; with one it has a facet key. -/
theorem AnalyzeQuery.wellScoped_parts {q : AnalyzeQuery} {d : Draft} (predicate : Predicate)
    (hd : d.Scoped) (htotals : q.isFaceted = false → d.totalOf = [])
    (hnone : q.isFaceted = false → d.facetKeys = [])
    (hne : q.isFaceted = true → d.facetKeys ≠ []) :
    (q.parts predicate d).WellScoped q (d.outputs (d.visible q.isFaceted)) where
  unwind_iff := by simp [parts]
  page_iff := by simp [parts]
  columns_nodup := by
    have hcolumns := hd.columns_nodup
    rw [Draft.columns, ← List.append_assoc] at hcolumns
    exact (List.nodup_append.mp hcolumns).1
  facet_iff := by
    by_cases hq : q.fieldGroup = [] <;> simp [parts, isFaceted, hq]
  facetKeys_ne := by
    intro f hf
    obtain ⟨ht, rfl⟩ := mem_facet_parts hf
    exact hne ht
  facetKeys_nodup := by
    intro f hf
    obtain ⟨-, rfl⟩ := mem_facet_parts hf
    exact hd.partition_perm.2
  facetKeys_perm := by
    intro f hf
    obtain ⟨-, rfl⟩ := mem_facet_parts hf
    exact hd.partition_perm.1
  totals_read := by
    intro f hf
    obtain ⟨-, rfl⟩ := mem_facet_parts hf
    exact hd.totals_read
  totals_new := by
    intro f hf
    obtain ⟨-, rfl⟩ := mem_facet_parts hf
    rw [List.append_assoc]
    exact hd.columns_nodup
  order_shown _ hk := hd.order_visible htotals hk
  shown_nodup := hd.visible_nodup
  hidden_not_shown _ hf hidden := hd.hidden_not_visible hf hidden
  outputs_idents := hd.registry_valid.idents_nodup.sublist (List.filter_sublist.map _)
  outputs_names := hd.registry_valid.names_nodup.sublist (List.filter_sublist.map _)
  mem_outputs ident := by
    rw [hd.mem_outputs]
    refine or_congr_right ?_
    cases ht : q.isFaceted with
    | false => simp [parts, ht, hnone ht]
    | true => simp [parts, ht, Draft.facet]

/-- A plan of an analysis is well formed. -/
theorem AnalyzePlan.ofQuery_wellScoped {q : AnalyzeQuery} {plan : AnalyzePlan}
    (h : AnalyzePlan.ofQuery q = .ok plan) :
    ∃ p : PlanParts, plan.stages = p.stages ∧ p.WellScoped q plan.outputs := by
  simp only [AnalyzePlan.ofQuery] at h
  split at h
  · cases h
  · next hfaceted =>
    split at h
    · cases h
    · obtain rfl := Except.ok.inj h
      obtain ⟨predicate, hp⟩ := q.exists_predicate
      have hkeys := q.draftFields_facetKeys q.draftKeys
      refine ⟨q.parts predicate _, q.stages_parts hp _, q.wellScoped_parts predicate ?_ ?_ ?_ ?_⟩
      · exact q.scoped_draftFields q.keyed_draftKeys.columns_scoped
      · exact fun hnone => (q.draftFields_totalOf hnone _).trans q.draftKeys_totalOf
      · exact fun hnone => hkeys.trans (q.draftKeys_facetKeys hnone)
      · intro hf hempty
        rw [hkeys] at hempty
        simp [hf, hempty] at hfaceted

def leapDay : Date := ⟨2024, 2, 29, by decide, by decide⟩

/-- Monthly costs and their average by provider, with a list over regions. -/
def costsByRegion : AnalyzeQuery where
  granularity := .monthly
  window := ⟨leapDay.firstOfMonth, leapDay.lastOfMonth⟩
  filter := []
  filterOr := []
  groupBy := [⟨"provider", "provider"⟩]
  fields := [⟨"cost", .sum, some "cost", []⟩, ⟨"mean cost", .average, some "cost", []⟩]
  fieldGroup := [⟨"region_code", "region"⟩]
  select := []
  sort := [⟨"cost", true⟩]
  page := some ⟨1, 10⟩
  unwind := none

theorem costsByRegion_wellScoped :
    ∃ plan, ∃ p : PlanParts, AnalyzePlan.ofQuery costsByRegion = .ok plan ∧
      plan.stages = p.stages ∧ p.WellScoped costsByRegion plan.outputs := by
  have h : AnalyzePlan.ofQuery costsByRegion = .ok _ := rfl
  obtain ⟨p, hs, hp⟩ := AnalyzePlan.ofQuery_wellScoped h
  exact ⟨_, p, h, hs, hp⟩

end CostQuery

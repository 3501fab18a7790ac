import CostQuery.Proofs.Plan.Totals

/-! What a faceted plan keeps of its fields: their columns, their totals and their order. -/

namespace CostQuery

/-- The columns of the groups that are not hidden. -/
def Group.shownIdents (g : Group) : List String :=
  g.keys.map (·.ident) ++ (g.fields.filter fun c => !c.hidden).map (·.ident)

/-- No column shown goes by a name that the total of the field needs: its own, and for an average
those of the hidden sum and count. -/
structure FieldSpec.Unobstructed (f : FieldSpec) (g : Group) : Prop where
  total : f.totalIdent ∉ g.shownIdents
  parts : f.aggregate = .average → ∀ n ∈ helperNames f.name, Alias.ofName n ∉ g.shownIdents

/-- A field that is left in the plan, under its own name. -/
structure AnalyzePlan.Keeps (plan : AnalyzePlan) (g : Group) (f : FieldSpec) : Prop where
  column : f.column ∈ g.fields
  named : OutputColumn.named f.name ∈ plan.outputs

/-- The order of the rows. -/
def AnalyzePlan.order (plan : AnalyzePlan) : List OrderKey :=
  (plan.stages.findSome? Stage.sort?).getD []

namespace AnalyzeQuery

/-- The column that a sort key stands for. -/
def sortIdent? (q : AnalyzeQuery) (key : String) : Option String :=
  q.draft.sortIdent? (q.draft.visible q.isFaceted) key

/-- The draft with its fields, before the totals. -/
def fieldDraft (q : AnalyzeQuery) : Draft :=
  q.fields.foldl (Draft.addField true)
    (q.select.foldl (fun d (name, e) => d.addSelect name e) q.draftKeys)

end AnalyzeQuery

namespace Draft
variable {d d₀ : Draft} {specs : List FieldSpec} {f : FieldSpec} {c : AggregateField}
  {ident : String}

theorem Traced.mem_shownIdents (h : d.Traced specs) (hd : d.Scoped) :
    ident ∈ (Group.mk d.keys d.fields).shownIdents ↔ ident ∈ d.shownIdents := by
  simp only [Group.shownIdents, shownIdents, keyIdents, List.mem_append]
  refine or_congr_right ⟨fun hident => ?_, fun hident => ?_⟩
  · obtain ⟨c, hc, rfl⟩ := List.mem_map.mp hident
    obtain ⟨hc, hshown⟩ := List.mem_filter.mp hc
    exact h.shown c hc (by simpa using hshown)
  · obtain ⟨p, hp, rfl⟩ := List.mem_map.mp hident
    obtain ⟨c, hc, heq, hshown⟩ := hd.planned_shown p hp
    exact heq ▸ List.mem_map_of_mem (List.mem_filter.mpr ⟨hc, by simp [hshown]⟩)

/-- A field kept is one that was planned. -/
theorem Traced.exists_planned (h : d.Traced specs) (hd : d.Scoped)
    (hvalid : d₀.registry.Valid) (hentries : d.registry.entries ⊆ d₀.registry.entries)
    (hcolumn : f.column ∈ d.fields) (hnamed : OutputColumn.named f.name ∈ d₀.registry.entries) :
    ∃ p ∈ d.planned, p.Serves f d.fields := by
  obtain ⟨p, hp, hident⟩ := List.mem_map.mp (h.shown _ hcolumn rfl)
  obtain ⟨f', -, hserves⟩ := h.served p hp
  have hfields : d.fieldIdents.Nodup := (List.nodup_append.mp
    (List.nodup_append.mp hd.columns_nodup).2.1).1
  have hsame : f'.column = f.column := List.inj_on_of_nodup_map hfields hserves.shown hcolumn
    (hserves.ident.symm.trans hident)
  have hname : OutputColumn.named p.name = OutputColumn.named f.name :=
    List.inj_on_of_nodup_map hvalid.idents_nodup (hentries (h.entered p hp)) hnamed
      ((h.ident_eq hp).symm.trans hident)
  obtain ⟨-, hname⟩ := OutputColumn.mk.inj hname
  obtain ⟨-, haggregate, hinput, -⟩ := AggregateField.mk.inj hsame
  refine ⟨p, hp, hname, hident, hserves.aggregate.trans haggregate, ?_, hcolumn, ?_⟩
  · rw [← hname, hserves.name]
    exact hserves.parts
  · rw [← hinput]
    exact hserves.hidden

end Draft

namespace AnalyzeQuery
variable {q : AnalyzeQuery}

theorem bare_draftKeys : q.draftKeys.Bare :=
  q.draftKeys_run (q.groupDraft_run Draft.bare_empty (fun _ _ h => h.addKey _ _)
    fun _ _ _ h => h.addKey _ _) fun _ c _ h => h.addFacet q.groupBy c

theorem scoped_fieldDraft : q.fieldDraft.Scoped := by
  have hselect := List.foldlRecOn q.select (fun d (name, e) => d.addSelect name e)
    q.keyed_draftKeys.columns_scoped fun _ h c _ => h.addKey c.1 (.computed (Computed.ofSelect c.2))
  exact List.foldlRecOn q.fields (Draft.addField true) hselect fun _ h f _ => h.addField true f

/-- Before the fields there are keys only. -/
theorem bare_selects : (q.select.foldl (fun d (name, e) => d.addSelect name e) q.draftKeys).Bare ∧
    (q.select.foldl (fun d (name, e) => d.addSelect name e) q.draftKeys).Keyed :=
  List.foldlRecOn (motive := fun d : Draft => d.Bare ∧ d.Keyed) q.select
    (fun d (name, e) => d.addSelect name e) ⟨bare_draftKeys, q.keyed_draftKeys⟩
    fun _ h c _ => ⟨h.1.addKey c.1 _, h.2.addKey c.1 _⟩

theorem traced_fieldDraft (hkeys : ∀ f ∈ q.fields, f.aggregate ≠ .count → f.key ≠ none) :
    q.fieldDraft.Traced q.fields := by
  refine List.foldlRecOn q.fields (Draft.addField true)
    (bare_selects.1.traced bare_selects.2.keys_only)
    fun _ h f hf => h.addField hf fun haverage => hkeys f hf ?_
  rw [haverage]
  decide

theorem draft_totalled (hf : q.isFaceted = true)
    (hkeys : ∀ f ∈ q.fields, f.aggregate ≠ .count → f.key ≠ none) :
    q.fieldDraft.Totalled q.fieldDraft.planned q.draft := by
  have htraced := traced_fieldDraft hkeys
  have hdraft : q.draft = q.fieldDraft.planned.foldl Draft.addTotal q.fieldDraft := by
    simp only [draft, draftFields, fieldDraft, hf, if_true]
  rw [hdraft]
  exact htraced.totalled.foldl (htraced.totalIdents_nodup scoped_fieldDraft)

section
variable {f : FieldSpec} (hfaceted : q.isFaceted = true)
  (hkeys : ∀ f ∈ q.fields, f.aggregate ≠ .count → f.key ≠ none)
include hfaceted hkeys

/-- Every field planned was asked for, and is shown under its own name. -/
theorem exists_field_of_planned {p : PlannedField} (hp : p ∈ q.fieldDraft.planned) :
    ∃ f ∈ q.fields, p.Serves f q.draft.fields ∧
      OutputColumn.named f.name ∈ q.draft.outputs (q.draft.visible true) := by
  have htotalled := draft_totalled hfaceted hkeys
  have htraced := traced_fieldDraft hkeys
  obtain ⟨f, hf, hserves⟩ := htraced.served p hp
  have hentry : OutputColumn.named f.name ∈ q.draft.registry.entries :=
    htotalled.entries (hserves.name ▸ htraced.entered p hp)
  have hvisible : Alias.ofName f.name ∈ q.draft.visible true := by
    refine List.mem_append_right _ ?_
    rw [Draft.plannedIdents, htotalled.planned, ← hserves.ident]
    exact List.mem_map_of_mem hp
  refine ⟨f, hf, htotalled.fields ▸ hserves, List.mem_filter.mpr ⟨hentry, ?_⟩⟩
  simpa [OutputColumn.named] using Or.inl hvisible

/-- Every total is that of a field asked for. -/
theorem exists_field_of_total {t : FacetTotal} (ht : t ∈ q.draft.totals) :
    ∃ f ∈ q.fields, f.column ∈ q.draft.fields ∧
      OutputColumn.named f.name ∈ q.draft.outputs (q.draft.visible true) ∧
      t.ident = f.totalIdent ∧ f.IsTotal q.draft.fields t.total := by
  obtain ⟨p, hp, htotal, hident⟩ := (draft_totalled hfaceted hkeys).totals t ht
  obtain ⟨f, hf, hserves, hnamed⟩ := exists_field_of_planned hfaceted hkeys hp
  refine ⟨f, hf, hserves.shown, hnamed, ?_, hserves.isTotal htotal⟩
  rw [hident, PlannedField.totalIdent, FieldSpec.totalIdent, hserves.name]

variable (hcolumn : f.column ∈ q.draft.fields)
  (hnamed : OutputColumn.named f.name ∈ q.draft.registry.entries)
  (hnumeric : f.aggregate.isNumeric = true)
include hcolumn hnamed hnumeric

/-- A field whose total meets no column shown has it, and keys that name the field stand for it. -/
theorem total_of_unobstructed (hfree : f.Unobstructed ⟨q.draft.keys, q.draft.fields⟩) :
    (∃ t, ⟨f.totalIdent, t⟩ ∈ q.draft.totals ∧ f.IsTotal q.draft.fields t) ∧
      ∀ key, key = f.name ∨ key = Alias.ofName f.name →
        q.draft.totalFor? key = some f.totalIdent := by
  have htotalled := draft_totalled hfaceted hkeys
  have htraced := traced_fieldDraft hkeys
  have hscoped := scoped_fieldDraft (q := q)
  rw [htotalled.fields] at hcolumn hfree ⊢
  rw [htotalled.keys] at hfree
  obtain ⟨p, hp, hserves⟩ := htraced.exists_planned hscoped q.draft_scoped.registry_valid
    htotalled.entries hcolumn hnamed
  have htotalIdent : p.totalIdent = f.totalIdent := by
    rw [PlannedField.totalIdent, FieldSpec.totalIdent, hserves.name]
  obtain ⟨t, ht⟩ := PlannedField.exists_total (p := p) (hserves.aggregate ▸ hnumeric) <| by
    intro haverage hnone
    obtain ⟨n, hn, hshown⟩ := htraced.undivided p hp haverage hnone
    exact hfree.parts (hserves.aggregate ▸ haverage) n (hserves.name ▸ hn)
      ((htraced.mem_shownIdents hscoped).mpr hshown)
  have hnew : p.totalIdent ∉ q.fieldDraft.registry.idents := fun htaken =>
    hfree.total (htotalIdent ▸ (htraced.mem_shownIdents hscoped).mpr
      (htraced.shown_of_total htaken))
  obtain ⟨hmem, hof⟩ := htotalled.complete p hp t ht hnew
  rw [← htotalIdent]
  refine ⟨⟨t, hmem, hserves.isTotal ht⟩, fun key hkey => ?_⟩
  exact htotalled.totalFor htraced hscoped hp hof (by rwa [hserves.name, hserves.ident])

end

/-- A total that is there meets no column shown. -/
theorem unobstructed_of_total (hfaceted : q.isFaceted = true)
    (hkeys : ∀ f ∈ q.fields, f.aggregate ≠ .count → f.key ≠ none) {f : FieldSpec} {t : Total}
    (ht : ⟨f.totalIdent, t⟩ ∈ q.draft.totals) (htotal : f.IsTotal q.draft.fields t) :
    f.Unobstructed ⟨q.draft.keys, q.draft.fields⟩ := by
  have htotalled := draft_totalled hfaceted hkeys
  have hscoped := q.draft_scoped
  have hshown : ∀ ident ∈ (Group.mk q.draft.keys q.draft.fields).shownIdents,
      ident ∈ q.draft.visible false := by
    intro ident hident
    rw [htotalled.keys, htotalled.fields,
      (traced_fieldDraft hkeys).mem_shownIdents scoped_fieldDraft] at hident
    change ident ∈ q.draft.keyIdents ++ q.draft.plannedIdents
    rwa [Draft.keyIdents, Draft.plannedIdents, htotalled.keys, htotalled.planned]
  have hidden : ∀ c ∈ q.draft.fields, c.hidden = true →
      c.ident ∉ (Group.mk q.draft.keys q.draft.fields).shownIdents :=
    fun c hc hh hmem => hscoped.hidden_not_visible hc hh (hshown _ hmem)
  constructor
  · intro hmem
    have hnodup := hscoped.columns_nodup
    rw [Draft.columns, ← List.append_assoc] at hnodup
    refine (List.nodup_append.mp hnodup).2.2 f.totalIdent ?_ _ (List.mem_map_of_mem ht) rfl
    rcases List.mem_append.mp (hshown _ hmem) with hkey | hplanned
    · exact List.mem_append_left _ hkey
    · exact List.mem_append_right _ (hscoped.planned_subset hplanned)
  · intro haverage n hn
    cases t with
    | sum | min | max => simp [FieldSpec.IsTotal, haverage] at htotal
    | ratio sum count =>
      obtain ⟨-, hparts, hsum, hcount⟩ := htotal
      obtain ⟨rfl, rfl⟩ := Prod.mk.inj hparts
      simp only [helperNames, List.mem_cons, List.not_mem_nil, or_false] at hn
      rcases hn with rfl | rfl
      · exact hidden _ hsum rfl
      · exact hidden _ hcount rfl

end AnalyzeQuery

namespace AnalyzePlan

/-- A faceted plan has for each numeric field it keeps a total made from the field's own column,
unless a column shown goes by a name that the total needs; rows sorted by the field are sorted by
the total. -/
theorem ofQuery_totals {limits : RangeLimits} {r : Request} {q : AnalyzeQuery}
    {plan : AnalyzePlan} (hq : AnalyzeQuery.ofRequest limits r = .ok q)
    (hfaceted : q.fieldGroup ≠ []) (h : AnalyzePlan.ofQuery q = .ok plan) :
    ∃ g facet, plan.group? = some g ∧ plan.facet? = some facet ∧
      plan.order = q.sort.filterMap (fun s =>
        (q.sortIdent? s.key).map fun ident => ⟨ident, s.desc⟩) ∧
      ∀ f ∈ q.fields, f.aggregate.isNumeric = true → plan.Keeps g f →
        ((∃ t, ⟨f.totalIdent, t⟩ ∈ facet.totals ∧ f.IsTotal g.fields t) ↔ f.Unobstructed g) ∧
        (f.Unobstructed g → ∀ key, key = f.name ∨ key = Alias.ofName f.name →
          q.sortIdent? key = some f.totalIdent) := by
  have hkeys : ∀ f ∈ q.fields, f.aggregate ≠ .count → f.key ≠ none :=
    fun f hf hcount => AnalyzeQuery.key_of_ofRequest hq hf hcount
  have hf : q.isFaceted = true := by simpa [AnalyzeQuery.isFaceted] using hfaceted
  obtain ⟨-, rfl⟩ := AnalyzePlan.ofQuery_ok h
  refine ⟨⟨q.draft.keys, q.draft.fields⟩, q.draft.facet, q.group_stages q.draft, ?_,
    q.sort_stages q.draft, fun f _ hnumeric hkeeps => ?_⟩
  · rw [facet?, q.facet_stages, if_pos hf]
  · have htotal := AnalyzeQuery.total_of_unobstructed hf hkeys hkeeps.column
      (List.mem_of_mem_filter hkeeps.named) hnumeric
    refine ⟨⟨?_, fun hfree => (htotal hfree).1⟩, fun hfree key hkey => ?_⟩
    · rintro ⟨t, ht, hist⟩
      exact AnalyzeQuery.unobstructed_of_total hf hkeys ht hist
    · rw [AnalyzeQuery.sortIdent?, Draft.sortIdent?, (htotal hfree).2 key hkey]

end AnalyzePlan

/-- The request for the daily costs and their average by provider, with a list over regions. -/
def regionRequest : Request where
  granularity := some "DAILY"
  start := some "2024-02-01"
  finish := some "2024-02-29"
  groupBy := [.str "provider"]
  fields := [("cost", { operator := some "sum", key := some "cost" }),
    ("mean cost", { operator := some "average", key := some "cost" })]
  fieldGroup := [.obj [("key", .str "region_code"), ("name", .str "region")]]
  sort := [{ key := "cost", desc := true }]
  page := some { start := some 1, limit := some 10 }

def regionQuery : AnalyzeQuery := { costsByRegion with granularity := .daily }

theorem ofRequest_regionRequest : AnalyzeQuery.ofRequest {} regionRequest = .ok regionQuery := rfl

/-- The average is the ratio of its hidden columns, and rows sorted by cost are sorted by its
total. -/
theorem regionQuery_totals :
    ∃ plan g facet, AnalyzePlan.ofQuery regionQuery = .ok plan ∧ plan.group? = some g ∧
      plan.facet? = some facet ∧ regionQuery.sortIdent? "cost" = some "_total_cost" ∧
      ∃ t, ⟨"_total_mean_cost", t⟩ ∈ facet.totals ∧
        FieldSpec.IsTotal ⟨"mean cost", .average, some "cost", []⟩ g.fields t := by
  have h : AnalyzePlan.ofQuery regionQuery = .ok _ := rfl
  obtain ⟨g, facet, hg, hfacet, -, htotals⟩ :=
    AnalyzePlan.ofQuery_totals ofRequest_regionRequest (List.cons_ne_nil _ _) h
  obtain rfl := Option.some.inj hg
  have hcost := htotals ⟨"cost", .sum, some "cost", []⟩ List.mem_cons_self rfl
    ⟨List.mem_of_getElem? (i := 0) rfl, List.mem_of_getElem? (i := 3) rfl⟩
  have hmean := htotals ⟨"mean cost", .average, some "cost", []⟩
    (List.mem_cons_of_mem _ List.mem_cons_self) rfl
    ⟨List.mem_of_getElem? (i := 1) rfl, List.mem_of_getElem? (i := 4) rfl⟩
  refine ⟨_, _, facet, h, hg, hfacet, hcost.2 ⟨by decide, nofun⟩ "cost" (Or.inl rfl),
    hmean.1.mpr ⟨by decide, fun _ => by decide⟩⟩

/-- A group column under the name of the total of the costs. -/
def takenRequest : Request :=
  { regionRequest with groupBy := [.obj [("key", .str "provider"), ("name", .str "_total_cost")]] }

def takenQuery : AnalyzeQuery :=
  { regionQuery with groupBy := [⟨"provider", "_total_cost"⟩] }

/-- The column keeps the name: the costs are left without a total, and rows are sorted by the list
over regions. -/
theorem takenRequest_no_total :
    ∃ plan g facet f, AnalyzeQuery.ofRequest {} takenRequest = .ok takenQuery ∧
      takenQuery.fieldGroup ≠ [] ∧ AnalyzePlan.ofQuery takenQuery = .ok plan ∧
      plan.group? = some g ∧ plan.facet? = some facet ∧
      f ∈ takenQuery.fields ∧ f.aggregate.isNumeric = true ∧ plan.Keeps g f ∧
      (∀ t, ⟨f.totalIdent, t⟩ ∉ facet.totals) ∧
      plan.order = [⟨Alias.ofName f.name, true⟩] ∧ Alias.ofName f.name ∈ facet.arrays := by
  refine ⟨_, _, _, ⟨"cost", .sum, some "cost", []⟩, rfl, List.cons_ne_nil _ _, rfl, rfl, rfl,
    List.mem_cons_self, rfl,
    ⟨List.mem_of_getElem? (i := 0) rfl, List.mem_of_getElem? (i := 3) rfl⟩, fun t ht => ?_, rfl,
    List.mem_of_getElem? (i := 0) rfl⟩
  have hident : "_total_cost" ∈ ["_total_mean_cost"] :=
    List.mem_map_of_mem (f := FacetTotal.ident) ht
  exact absurd hident (by decide)

end CostQuery

import CostQuery.Pipeline.Text
import CostQuery.Proofs.Members
import CostQuery.Proofs.Pipeline.Compile
import CostQuery.Proofs.Plan.Kept

/-! The documents of a pipeline. A member takes the place of one that was put under its name
before; here are the names with which that happens. -/

namespace CostQuery.Pipeline
variable {α : Type} {w : Warehouse} {columns : List Column} {f : Facet} {t t' : FacetTotal}
  {ident ident' name : String}

/-! Members as they were put. -/

def listed (f : α → Json) (members : List (String × α)) : Json :=
  .obj (members.map fun (k, a) => (k, f a))

def Expr.written : Expr → Json
  | .object members => listed Expr.toJson members
  | e => e.toJson

/-- The document of a stage with every member that was put into it. -/
def Stage.written : Stage → Json
  | .group key accumulators =>
    operator "$group" (.obj (("_id", if key.isEmpty then .null else listed Expr.toJson key) ::
      accumulators.map fun (k, a) => (k, a.toJson)))
  | .project members => operator "$project" (listed Shown.toJson members)
  | s => s.toJson

theorem operator_inj {a b : Json} : operator name a = operator name b ↔ a = b := by
  simp [operator]

theorem collected_eq_listed {f : α → Json} {members : List (String × α)} :
    collected f members = listed f members ↔ (members.map Prod.fst).Nodup := by
  rw [collected, listed, Json.obj.injEq, Members.collect_eq_iff, List.map_map]
  rfl

theorem membersToJson_eq (members : List (String × Expr)) :
    membersToJson members = members.map fun (k, e) => (k, e.toJson) := by
  induction members with
  | nil => rfl
  | cons m rest ih => rw [membersToJson, ih, List.map_cons]

theorem written_object {members : List (String × Expr)} :
    (Expr.object members).toJson = (Expr.object members).written ↔
      (members.map Prod.fst).Nodup := by
  rw [Expr.toJson, membersToJson_eq]
  exact collected_eq_listed

theorem written_project {members : List (String × Shown)} :
    (Stage.project members).toJson = (Stage.project members).written ↔
      (members.map Prod.fst).Nodup := by
  rw [Stage.toJson, Stage.written, operator_inj, collected_eq_listed]

theorem groupKey_eq {key : List (String × Expr)} :
    groupKey key = (if key.isEmpty then .null else listed Expr.toJson key) ↔
      (key.map Prod.fst).Nodup := by
  rw [groupKey]
  split
  · next h => simp [List.isEmpty_iff.mp h]
  · exact collected_eq_listed

theorem written_group {key : List (String × Expr)} {accumulators : List (String × Accumulator)} :
    (Stage.group key accumulators).toJson = (Stage.group key accumulators).written ↔
      (key.map Prod.fst).Nodup ∧ ("_id" :: accumulators.map Prod.fst).Nodup := by
  have hnames (v : Json) : (("_id", v) :: accumulators.map fun (k, a) =>
      (k, Accumulator.toJson a)).map Prod.fst = "_id" :: accumulators.map Prod.fst := by
    rw [List.map_cons, List.map_map]
    rfl
  rw [Stage.toJson, Stage.written, operator_inj, Json.obj.injEq]
  constructor
  · intro h
    -- The names put together are told apart, and they are the names that were put.
    have hnodup := Members.nodup_keys_collect (("_id", groupKey key) ::
      accumulators.map fun (k, a) => (k, Accumulator.toJson a))
    rw [h, Members.keys, hnames] at hnodup
    rw [Members.collect_eq_iff.mpr ((hnames _).symm ▸ hnodup)] at h
    exact ⟨groupKey_eq.mp (Prod.mk.inj (List.cons.inj h).1).2, hnodup⟩
  · rintro ⟨hkey, hnodup⟩
    rw [Members.collect_eq_iff.mpr ((hnames _).symm ▸ hnodup), groupKey_eq.mpr hkey]

/-! The first grouping. -/

theorem written_groupStages (g : Group) (hkeys : ∀ k ∈ g.keys, k.source.Reads columns)
    (hfields : ∀ f ∈ g.fields, f.Reads columns)
    (hcolumns : (g.keys.map (·.ident) ++ g.fields.map (·.ident)).Nodup) :
    ∃ out, groupStages w g = .ok out ∧ ((∀ s ∈ out, s.toJson = s.written) ↔
      "_id" ∉ g.keys.map (·.ident) ++ g.fields.map (·.ident)) := by
  obtain ⟨key, accumulators, hkey, haccumulators, hout⟩ :=
    exists_groupStages (w := w) hkeys hfields
  have hshown : (lifted (g.keys.map (·.ident)) ++ g.fields.map fun f => (f.ident, Shown.keep)).map
      Prod.fst = "_id" :: (g.keys.map (·.ident) ++ g.fields.map (·.ident)) := by
    simp [lifted, Function.comp_def]
  refine ⟨_, hout, ?_⟩
  simp only [List.forall_mem_cons, List.not_mem_nil, false_implies, implies_true, and_true,
    written_group, written_project, hkey, haccumulators, hshown, List.nodup_cons]
  constructor
  · exact fun h => h.2.1
  · intro h
    obtain ⟨hk, hf, -⟩ := List.nodup_append.mp hcolumns
    exact ⟨⟨hk, fun hmem => h (List.mem_append_right _ hmem), hf⟩, h, hcolumns⟩

/-! The second grouping, whose accumulators have names of their own. -/

def totalNames (t : FacetTotal) : List String := (totalAccumulators t).map Prod.fst

/-- What the names begin with: that of a total itself, and those of the parts of a ratio. -/
def partMarks : List String := ["", "__num_", "__den_"]

theorem mark_of_totalNames (h : name ∈ totalNames t) :
    ∃ mark ∈ partMarks, name = mark ++ t.ident := by
  obtain ⟨ident, total⟩ := t
  cases total with
  | sum | min | max =>
    obtain rfl := List.mem_singleton.mp h
    exact ⟨"", List.mem_cons_self, (String.empty_append).symm⟩
  | ratio sum count =>
    simp only [totalNames, totalAccumulators, List.map_cons, List.map_nil, List.mem_cons,
      List.not_mem_nil, or_false] at h
    rcases h with rfl | rfl
    · exact ⟨"__num_", by decide, rfl⟩
    · exact ⟨"__den_", by decide, rfl⟩

/-- It begins as the totals do. -/
def IsTotalIdent (ident : String) : Prop := ∃ rest, ident.toList = '_' :: 't' :: rest

theorem isTotalIdent_ofName (name : String) : IsTotalIdent (Alias.ofName (totalMark ++ name)) :=
  ⟨_, Alias.toList_ofName_marked Alias.isMark_total name⟩

theorem ident_of_marked {mark mark' : String} (hm : mark ∈ partMarks) (hm' : mark' ∈ partMarks)
    (h : IsTotalIdent ident) (h' : IsTotalIdent ident') (heq : mark ++ ident = mark' ++ ident') :
    ident = ident' := by
  obtain ⟨rest, h⟩ := h
  obtain ⟨rest', h'⟩ := h'
  rw [← String.toList_inj, String.toList_append, String.toList_append] at heq
  rw [← String.toList_inj]
  simp only [partMarks, List.mem_cons, List.not_mem_nil, or_false] at hm hm'
  rcases hm with rfl | rfl | rfl <;> rcases hm' with rfl | rfl | rfl <;>
    simp_all

theorem id_ne_marked {mark : String} (hm : mark ∈ partMarks) (h : IsTotalIdent ident) :
    "_id" ≠ mark ++ ident := by
  obtain ⟨rest, h⟩ := h
  rw [Ne, ← String.toList_inj, String.toList_append]
  simp only [partMarks, List.mem_cons, List.not_mem_nil, or_false] at hm
  rcases hm with rfl | rfl | rfl <;> simp [h]

theorem totalNames_nodup (t : FacetTotal) : (totalNames t).Nodup := by
  obtain ⟨ident, total⟩ := t
  cases total with
  | sum | min | max => exact List.nodup_singleton _
  | ratio sum count =>
    have hne : numerator ident ≠ denominator ident := by
      rw [Ne, ← String.toList_inj]
      simp [numerator, denominator]
    simpa [totalNames, totalAccumulators] using hne

section
variable {totals : List FacetTotal} {arrays : List String}
  (hmarked : ∀ t ∈ totals, IsTotalIdent t.ident)
include hmarked

theorem id_notMem_totals :
    "_id" ∉ totals.flatMap totalNames ∧ "_id" ∉ totals.map (·.ident) := by
  constructor
  · intro hmem
    obtain ⟨t, ht, hname⟩ := List.mem_flatMap.mp hmem
    obtain ⟨mark, hm, heq⟩ := mark_of_totalNames hname
    exact id_ne_marked hm (hmarked t ht) heq
  · intro hmem
    obtain ⟨t, ht, heq⟩ := List.mem_map.mp hmem
    exact id_ne_marked List.mem_cons_self (hmarked t ht) (heq.symm.trans String.empty_append.symm)

theorem nodup_totals (hnodup : (totals.map (·.ident)).Nodup) :
    (totals.flatMap totalNames).Nodup := by
  refine List.nodup_flatMap.mpr ⟨fun t _ => totalNames_nodup t, ?_⟩
  refine (List.pairwise_map.mp hnodup).imp_of_mem fun {t t'} ht ht' hne => ?_
  intro name hname hname'
  obtain ⟨mark, hm, rfl⟩ := mark_of_totalNames hname
  obtain ⟨mark', hm', heq⟩ := mark_of_totalNames hname'
  exact hne (ident_of_marked hm hm' (hmarked t ht) (hmarked t' ht') heq)

/-- Of the accumulators only the totals and the arrays can get in each other's way. -/
theorem nodup_accumulators (htotals : (totals.map (·.ident)).Nodup) (harrays : arrays.Nodup)
    (hid : "_id" ∉ arrays) : ("_id" :: (totals.flatMap totalNames ++ arrays)).Nodup ↔
      ∀ t ∈ totals, ∀ name ∈ totalNames t, name ∉ arrays := by
  rw [List.nodup_cons, List.nodup_append]
  constructor
  · exact fun ⟨_, _, _, h⟩ t ht name hname hmem =>
      h name (List.mem_flatMap.mpr ⟨t, ht, hname⟩) name hmem rfl
  · refine fun h => ⟨?_, nodup_totals hmarked htotals, harrays, ?_⟩
    · rw [List.mem_append, not_or]
      exact ⟨(id_notMem_totals hmarked).1, hid⟩
    · rintro name hname _ hmem rfl
      obtain ⟨t, ht, hname⟩ := List.mem_flatMap.mp hname
      exact h t ht name hname hmem

end

/-- The names that the parts of a ratio take. -/
def ratioNames (t : FacetTotal) : List String :=
  match t.total with
  | .sum _ | .min _ | .max _ => []
  | .ratio _ _ => [numerator t.ident, denominator t.ident]

theorem ratioNames_iff {arrays : List String} (h : t.ident ∉ arrays) :
    (∀ name ∈ totalNames t, name ∉ arrays) ↔ ∀ name ∈ ratioNames t, name ∉ arrays := by
  obtain ⟨ident, total⟩ := t
  cases total with
  | sum | min | max => simpa [totalNames, totalAccumulators, ratioNames] using h
  | ratio sum count => exact Iff.rfl

theorem fst_totalShown (t : FacetTotal) : (totalShown t).1 = t.ident := by
  rw [totalShown]
  split <;> rfl

theorem written_facetStages
    (hcolumns : (f.partitionKeys ++ (f.totals.map (·.ident) ++ f.arrays)).Nodup)
    (hmarked : ∀ t ∈ f.totals, IsTotalIdent t.ident)
    (hid : "_id" ∉ f.partitionKeys ++ f.arrays) :
    (∀ s ∈ facetStages f, s.toJson = s.written) ↔
      ∀ t ∈ f.totals, ∀ name ∈ ratioNames t, name ∉ f.arrays := by
  have hkey : (f.partitionKeys.map fun k => (k, Expr.path k)).map Prod.fst = f.partitionKeys := by
    simp [Function.comp_def]
  have haccumulators : (f.totals.flatMap totalAccumulators ++ f.arrays.map fun ident =>
      (ident, Accumulator.push (facetItem f.facetKeys ident))).map Prod.fst =
        f.totals.flatMap totalNames ++ f.arrays := by
    simp only [List.map_append, List.map_flatMap, List.map_map, Function.comp_def, List.map_id']
    rfl
  have hshown : (lifted f.partitionKeys ++ f.totals.map totalShown ++ f.arrays.map fun ident =>
      (ident, Shown.keep)).map Prod.fst =
        "_id" :: (f.partitionKeys ++ (f.totals.map (·.ident) ++ f.arrays)) := by
    simp [lifted, Function.comp_def, fst_totalShown]
  obtain ⟨hkeys, hrest, -⟩ := List.nodup_append.mp hcolumns
  obtain ⟨htotals, harrays, hapart⟩ := List.nodup_append.mp hrest
  obtain ⟨hidKeys, hidArrays⟩ := not_or.mp (List.mem_append.not.mp hid)
  have hproject : ("_id" :: (f.partitionKeys ++ (f.totals.map (·.ident) ++ f.arrays))).Nodup := by
    refine List.nodup_cons.mpr ⟨?_, hcolumns⟩
    simp only [List.mem_append, not_or]
    exact ⟨hidKeys, (id_notMem_totals hmarked).2, hidArrays⟩
  have hgroup := nodup_accumulators hmarked htotals harrays hidArrays
  rw [facetStages]
  simp only [List.forall_mem_cons, List.not_mem_nil, false_implies, implies_true, and_true,
    written_group, written_project, hkey, haccumulators, hshown, hgroup, hkeys, hproject, true_and]
  refine forall₂_congr fun t ht => ratioNames_iff fun hmem => ?_
  exact hapart _ (List.mem_map_of_mem ht) _ hmem rfl

theorem written_facetItem {facetKeys : List String} (h : facetKeys.Nodup) :
    (facetItem facetKeys ident).toJson = (facetItem facetKeys ident).written ↔
      facetValue ∉ facetKeys := by
  have hnames : (facetKeys.map (fun k => (k, Expr.path k)) ++ [(facetValue, Expr.path ident)]).map
      Prod.fst = facetKeys ++ [facetValue] := by
    simp [Function.comp_def]
  rw [facetItem, written_object, hnames, (List.perm_append_singleton _ _).nodup_iff,
    List.nodup_cons, and_iff_left h]

/-- Every member that was put into the documents of the groupings, and into the items of a facet, is
still there. -/
structure Intact (out : List Stage) (facet? : Option Facet) : Prop where
  group : ∀ s ∈ out, s.toJson = s.written
  facet : ∀ f ∈ facet?, ∀ s ∈ facetStages f, s.toJson = s.written
  items : ∀ f ∈ facet?, ∀ ident ∈ f.arrays,
    (facetItem f.facetKeys ident).toJson = (facetItem f.facetKeys ident).written

/-- No column goes by a name that the pipeline gives to a member of its own. -/
structure NamesFree (g : Group) (facet? : Option Facet) : Prop where
  id : "_id" ∉ g.keys.map (·.ident) ++ g.fields.map (·.ident)
  value : ∀ f ∈ facet?, f.arrays ≠ [] → facetValue ∉ f.facetKeys
  ratios : ∀ f ∈ facet?, ∀ t ∈ f.totals, ∀ name ∈ ratioNames t, name ∉ f.arrays

end CostQuery.Pipeline

namespace CostQuery

namespace AnalyzeQuery
variable {limits : RangeLimits} {r : Request} {q : AnalyzeQuery} {plan : AnalyzePlan}

theorem written_facet (hq : ofRequest limits r = .ok q) (hfaceted : q.isFaceted = true)
    (hid : "_id" ∉ q.draft.keyIdents ++ q.draft.fieldIdents) :
    (∀ s ∈ Pipeline.facetStages q.draft.facet, s.toJson = s.written) ↔
      ∀ t ∈ q.draft.totals, ∀ name ∈ Pipeline.ratioNames t, name ∉ q.draft.plannedIdents := by
  have hcolumns : (q.draft.visible true).Nodup := q.draft_scoped.visible_nodup
  refine Pipeline.written_facetStages (by rwa [← List.append_assoc]) (fun t ht => ?_) ?_
  · obtain ⟨f, -, -, -, hident, -⟩ := exists_field_of_total hfaceted
      (fun f hf hcount => key_of_ofRequest hq hf hcount) ht
    exact hident ▸ Pipeline.isTotalIdent_ofName f.name
  · rw [List.mem_append, not_or] at hid ⊢
    exact ⟨fun hmem => hid.1 (List.mem_of_mem_filter hmem),
      fun hmem => hid.2 (q.draft_scoped.planned_subset hmem)⟩

/-- The documents of the groupings keep every member if and only if no column goes by a name that
the pipeline takes for itself: that of the key, that of the value in the items of a facet, and
those of the parts of a ratio. -/
theorem intact_iff (hq : ofRequest limits r = .ok q) (h : AnalyzePlan.ofQuery q = .ok plan)
    (w : Warehouse) :
    ∃ ss g out, Pipeline.ofPlan w plan = .ok ss ∧ plan.group? = some g ∧
      Pipeline.groupStages w g = .ok out ∧ out ⊆ ss ∧
      (∀ f ∈ plan.facet?, Pipeline.facetStages f ⊆ ss) ∧
      (Pipeline.Intact out plan.facet? ↔ Pipeline.NamesFree g plan.facet?) := by
  obtain ⟨ss, hss⟩ := exists_pipeline hq h w
  have hg := AnalyzePlan.group_of_ofQuery h
  have hcolumns := q.draft_scoped.columns_nodup
  rw [Draft.columns, ← List.append_assoc] at hcolumns
  obtain ⟨out, hout, hgroup⟩ := Pipeline.written_groupStages (w := w)
    ⟨q.draft.keys, q.draft.fields⟩ (draft_reads hq).keys (draft_reads hq).fields
    (List.nodup_append.mp hcolumns).1
  refine ⟨ss, _, out, hss, hg, hout, fun s hs => ?_, fun f hf s hs => ?_, ?_⟩
  · exact (Pipeline.mem_ofPlan hss).mpr ⟨_, AnalyzePlan.mem_of_group hg, out, hout, hs⟩
  · exact (Pipeline.mem_ofPlan hss).mpr ⟨_, AnalyzePlan.mem_of_facet hf, _, rfl, hs⟩
  · have hfacet (hid : "_id" ∉ q.draft.keyIdents ++ q.draft.fieldIdents) :
        ∀ f ∈ plan.facet?, (∀ s ∈ Pipeline.facetStages f, s.toJson = s.written) ↔
          ∀ t ∈ f.totals, ∀ name ∈ Pipeline.ratioNames t, name ∉ f.arrays := by
      intro f hf
      obtain ⟨hfaceted, rfl⟩ := AnalyzePlan.facet_of_ofQuery h hf
      exact written_facet hq hfaceted hid
    have hnodup : ∀ f ∈ plan.facet?, f.facetKeys.Nodup := by
      intro f hf
      obtain ⟨-, rfl⟩ := AnalyzePlan.facet_of_ofQuery h hf
      exact q.draft_scoped.facetKeys_nodup
    constructor
    · intro hi
      have hid := hgroup.mp hi.group
      refine ⟨hid, fun f hf harrays => ?_, fun f hf => (hfacet hid f hf).mp (hi.facet f hf)⟩
      obtain ⟨ident, hident⟩ := List.exists_mem_of_ne_nil _ harrays
      exact (Pipeline.written_facetItem (hnodup f hf)).mp (hi.items f hf ident hident)
    · intro hn
      refine ⟨hgroup.mpr hn.id, fun f hf => (hfacet hn.id f hf).mpr (hn.ratios f hf),
        fun f hf ident hident => ?_⟩
      exact (Pipeline.written_facetItem (hnodup f hf)).mpr
        (hn.value f hf (List.ne_nil_of_mem hident))

end AnalyzeQuery

theorem intact_region :
    ∃ plan ss g out, AnalyzePlan.ofQuery regionQuery = .ok plan ∧
      Pipeline.ofPlan {} plan = .ok ss ∧ Pipeline.groupStages {} g = .ok out ∧ out ⊆ ss ∧
      Pipeline.Intact out plan.facet? := by
  obtain ⟨ss, g, out, hss, hg, hout, hsub, -, hiff⟩ :=
    AnalyzeQuery.intact_iff ofRequest_regionRequest rfl {}
  obtain rfl := Option.some.inj hg
  refine ⟨_, ss, _, out, rfl, hss, hout, hsub,
    hiff.mpr ⟨by decide, fun f hf => ?_, fun f hf => ?_⟩⟩
  · obtain rfl := Option.some.inj hf
    decide
  · obtain rfl := Option.some.inj hf
    decide

/-- A list over a column that goes by the name of the value in the items of lists. -/
def valueRequest : Request := { regionRequest with fieldGroup := [.str "value"] }

def valueQuery : AnalyzeQuery := { regionQuery with fieldGroup := [⟨"value", "value"⟩] }

/-- The value takes the place of the facet key. -/
theorem valueRequest_key_lost :
    ∃ plan ss facet, AnalyzeQuery.ofRequest {} valueRequest = .ok valueQuery ∧
      AnalyzePlan.ofQuery valueQuery = .ok plan ∧ Pipeline.ofPlan {} plan = .ok ss ∧
      plan.facet? = some facet ∧ facet.facetKeys = ["value"] ∧ "cost" ∈ facet.arrays ∧
      (Pipeline.facetItem facet.facetKeys "cost").toJson = .obj [("value", .str "$cost")] :=
  ⟨_, _, _, rfl, rfl, rfl, rfl, rfl, List.mem_of_getElem? (i := 0) rfl, rfl⟩

end CostQuery

import CostQuery.Proofs.Pipeline.Documents

/-! The columns that the documents of a pipeline keep, and those that they group by. -/

namespace CostQuery.Pipeline
variable {w : Warehouse} {idents : List String} {key : List (String × Expr)}
  {accumulators : List (String × Accumulator)} {e : Expr}

/-- A member is kept as it is where its value is one. -/
def isKept : Json → Bool
  | .num (.int 1) => true
  | _ => false

/-- The members that a projection document keeps. -/
def keptNames? (stage : Json) : Option (List String) :=
  match stage.member? "$project" with
  | some (.obj members) => some ((members.filter fun m => isKept m.2).map Prod.fst)
  | _ => none

/-- Null has no members. -/
def memberNames? : Json → Option (List String)
  | .obj members => some (members.map Prod.fst)
  | .null => some []
  | _ => none

/-- The members of the key of a group document. -/
def keyNames? (stage : Json) : Option (List String) :=
  ((stage.member? "$group").bind (·.member? "_id")).bind memberNames?

/-- A projection keeps what it is told to, also where that goes by the name of what it drops. -/
theorem keptNames_project (hidents : idents.Nodup) :
    ∃ kept, keptNames? (Stage.project (("_id", .drop) ::
        idents.map fun ident => (ident, .keep))).toJson = some kept ∧
      kept.Nodup ∧ kept.Perm idents := by
  have hentries : (("_id", Shown.drop) :: idents.map fun ident => (ident, Shown.keep)).map
      (fun (k, a) => (k, Shown.toJson a)) =
        ("_id", .int 0) :: idents.map fun ident => (ident, Shown.toJson .keep) := by
    simp [Shown.toJson, Function.comp_def]
  refine ⟨_, rfl, ?_⟩
  rw [hentries]
  have hnodup := Members.nodup_keys_collect
    (("_id", .int 0) :: idents.map fun ident => (ident, Shown.toJson .keep))
  have hkept := hnodup.sublist ((List.filter_sublist (p := fun m => isKept m.2)).map Prod.fst)
  refine ⟨hkept, (List.perm_ext_iff_of_nodup hkept hidents).mpr fun name => ?_⟩
  have hmember (v : Json) : (name, v) ∈ Members.collect _ ↔ _ := Members.mem_iff_get? hnodup
  simp only [Members.get?_collect, List.reverse_cons, ← List.map_reverse, List.lookup_append,
    Members.lookup_of_names, List.mem_reverse] at hmember
  by_cases hident : name ∈ idents
  · have hm := (hmember (.int 1)).mpr (by simp [hident, Shown.toJson])
    exact iff_of_true (List.mem_map.mpr ⟨_, List.mem_filter.mpr ⟨hm, rfl⟩, rfl⟩) hident
  · refine iff_of_false (fun hname => ?_) hident
    obtain ⟨⟨_, v⟩, hm, rfl⟩ := List.mem_map.mp hname
    obtain ⟨hm, hv⟩ := List.mem_filter.mp hm
    have hid := (hmember v).mp hm
    rw [if_neg hident, Option.none_or, List.lookup_cons] at hid
    split at hid
    · obtain rfl := Option.some.inj hid
      cases hv
    · cases hid

/-! Groups. -/

/-- What is written in place of the key: the last accumulator that goes by its name. -/
def overwritten? (accumulators : List (String × Accumulator)) : Option Json :=
  (accumulators.map fun (k, a) => (k, Accumulator.toJson a)).reverse.lookup "_id"

theorem overwritten?_append (as bs : List (String × Accumulator)) :
    overwritten? (as ++ bs) = (overwritten? bs).or (overwritten? as) := by
  rw [overwritten?, List.map_append, List.reverse_append, List.lookup_append]
  rfl

theorem exists_of_overwritten? {doc : Json} (h : overwritten? accumulators = some doc) :
    ∃ a, ("_id", a) ∈ accumulators ∧ doc = Accumulator.toJson a := by
  obtain ⟨_, _, heq, -⟩ := List.lookup_eq_some_iff.mp h
  have hmem : ("_id", doc) ∈ accumulators.map fun (k, a) => (k, Accumulator.toJson a) := by
    rw [← List.mem_reverse, heq]
    exact List.mem_append_right _ List.mem_cons_self
  obtain ⟨⟨name, a⟩, ha, h⟩ := List.mem_map.mp hmem
  obtain ⟨rfl, rfl⟩ := Prod.mk.inj h
  exact ⟨a, ha, rfl⟩

theorem overwritten?_arrays {item : String → Expr} :
    overwritten? (idents.map fun ident => (ident, .push (item ident))) =
      if "_id" ∈ idents then some (Accumulator.push (item "_id")).toJson else none := by
  have hnames : (idents.map fun ident => (ident, Accumulator.push (item ident))).map
      (fun (k, a) => (k, Accumulator.toJson a)) =
        idents.map fun ident => (ident, (Accumulator.push (item ident)).toJson) := by
    rw [List.map_map]
    rfl
  rw [overwritten?, hnames, ← List.map_reverse, Members.lookup_of_names]
  simp only [List.mem_reverse]

theorem keyNames_group : keyNames? (Stage.group key accumulators).toJson =
    memberNames? ((overwritten? accumulators).getD (groupKey key)) := by
  have hget : (Members.collect (("_id", groupKey key) ::
      accumulators.map fun (k, a) => (k, Accumulator.toJson a))).get? "_id" =
        some ((overwritten? accumulators).getD (groupKey key)) := by
    rw [Members.get?_collect, List.reverse_cons, List.lookup_append, List.lookup_cons_self,
      ← overwritten?]
    cases overwritten? accumulators <;> rfl
  have hmember : ((Stage.group key accumulators).toJson.member? "$group").bind
      (·.member? "_id") = (Members.collect (("_id", groupKey key) ::
        accumulators.map fun (k, a) => (k, Accumulator.toJson a))).get? "_id" := rfl
  rw [keyNames?, hmember, hget, Option.bind_some]

theorem names_groupKey (h : (key.map Prod.fst).Nodup) :
    memberNames? (groupKey key) = some (key.map Prod.fst) := by
  rw [groupKey]
  split
  · next hnil => simp [memberNames?, List.isEmpty_iff.mp hnil]
  · rw [collected, Members.collect_eq_iff.mpr (by simpa [Function.comp_def] using h), memberNames?]
    simp [Function.comp_def]

theorem isSome_names (a : Accumulator) : (memberNames? a.toJson).isSome = true := by
  cases a <;> rfl

theorem isSome_keyNames (h : (key.map Prod.fst).Nodup) :
    (keyNames? (Stage.group key accumulators).toJson).isSome = true := by
  rw [keyNames_group]
  cases hover : overwritten? accumulators with
  | none => rw [Option.getD_none, names_groupKey h, Option.isSome_some]
  | some doc =>
    obtain ⟨a, -, rfl⟩ := exists_of_overwritten? hover
    exact isSome_names a

/-- The last accumulators are arrays. A group by the partition has its members, unless an array goes
by the name of the key. -/
theorem keyNames_facet {f : Facet}
    (hkeys : f.partitionKeys.Nodup) (htotals : "_id" ∉ f.totals.flatMap totalNames) :
    keyNames? (Stage.group (f.partitionKeys.map fun k => (k, .path k))
      (f.totals.flatMap totalAccumulators ++ f.arrays.map fun ident =>
        (ident, .push (facetItem f.facetKeys ident)))).toJson =
      some (if "_id" ∈ f.arrays then ["$push"] else f.partitionKeys) := by
  have hnone : overwritten? (f.totals.flatMap totalAccumulators) = none := by
    rw [← Option.not_isSome_iff_eq_none, Option.isSome_iff_exists]
    rintro ⟨doc, hdoc⟩
    obtain ⟨a, ha, -⟩ := exists_of_overwritten? hdoc
    have hname := List.mem_map_of_mem (f := Prod.fst) ha
    rw [List.map_flatMap] at hname
    exact htotals hname
  have hkey : (f.partitionKeys.map fun k => (k, Expr.path k)).map Prod.fst = f.partitionKeys := by
    simp [Function.comp_def]
  rw [keyNames_group, overwritten?_append, hnone, Option.or_none, overwritten?_arrays]
  by_cases hid : "_id" ∈ f.arrays
  · rw [if_pos hid, if_pos hid]
    rfl
  · rw [if_neg hid, if_neg hid, Option.getD_none, names_groupKey (hkey.symm ▸ hkeys), hkey]

/-- The keys of the groups of a pipeline, one after the other. -/
def groupKeys (ss : List Stage) : List (List String) := (ss.map Stage.toJson).filterMap keyNames?

/-- What the projections of a pipeline keep, one after the other. -/
def keptColumns (ss : List Stage) : List (List String) := (ss.map Stage.toJson).filterMap keptNames?

theorem groupKeys_append (ss ss' : List Stage) :
    groupKeys (ss ++ ss') = groupKeys ss ++ groupKeys ss' := by
  rw [groupKeys, List.map_append, List.filterMap_append]
  rfl

theorem groupKeys_nil {s : CostQuery.Stage} {out : List Stage} (hgroup : s.group? = none)
    (hfacet : s.facet? = none) (h : stages w s = .ok out) : groupKeys out = [] := by
  cases s with
  | group => cases hgroup
  | facet => cases hfacet
  | unwind | «match» | sort | skip | limit | project =>
    obtain rfl := Except.ok.inj h
    rfl

theorem groupKeys_flatten {ps : List CostQuery.Stage} {outs : List (List Stage)}
    (hps : ∀ s ∈ ps, s.group? = none ∧ s.facet? = none) (h : ps.mapM (stages w) = .ok outs) :
    groupKeys outs.flatten = [] := by
  have hall := mapM_ok h
  clear h
  induction hall with
  | nil => rfl
  | cons hs _ ih =>
    obtain ⟨⟨hgroup, hfacet⟩, hps⟩ := List.forall_mem_cons.mp hps
    rw [List.flatten_cons, groupKeys_append, groupKeys_nil hgroup hfacet hs, ih hps]
    rfl

theorem groupKeys_groupStages {g : Group} {out : List Stage} (h : groupStages w g = .ok out)
    (hkeys : (g.keys.map (·.ident)).Nodup) : ∃ names, groupKeys out = [names] := by
  simp only [groupStages, bind_ok, pure_ok] at h
  obtain ⟨key, hkey, accumulators, -, rfl⟩ := h
  have hnames : key.map Prod.fst = g.keys.map (·.ident) := by
    refine map_of_mapM_ok hkey fun k entry hentry => ?_
    obtain ⟨x, -, rfl⟩ := bind_pure_ok.mp hentry
    rfl
  have hsome : (keyNames? (Stage.group key accumulators).toJson).isSome = true :=
    isSome_keyNames (hnames ▸ hkeys)
  obtain ⟨names, hnames⟩ := Option.isSome_iff_exists.mp hsome
  refine ⟨names, ?_⟩
  rw [groupKeys, List.map_cons, List.filterMap_cons_some hnames]
  rfl

end CostQuery.Pipeline

namespace CostQuery.AnalyzeQuery
variable {limits : RangeLimits} {r : Request} {q : AnalyzeQuery} {plan : AnalyzePlan}
  {w : Warehouse} {ss : List Pipeline.Stage}

/-- The last projection keeps the columns shown. -/
theorem keptColumns_ofPlan (h : AnalyzePlan.ofQuery q = .ok plan)
    (hss : Pipeline.ofPlan w plan = .ok ss) :
    ∃ kept, (Pipeline.keptColumns ss).getLast? = some kept ∧ kept.Nodup ∧
      kept.Perm (q.draft.visible q.isFaceted) := by
  obtain ⟨-, rfl⟩ := AnalyzePlan.ofQuery_ok h
  obtain ⟨outs, houts, rfl⟩ := bind_pure_ok.mp hss
  simp only [stages] at houts
  obtain ⟨front, _, -, hlast, rfl⟩ := mapM_append_ok.mp houts
  obtain ⟨_, hproject, rfl⟩ := mapM_singleton_ok.mp hlast
  obtain rfl := Except.ok.inj hproject
  have hshown : (q.draft.visible q.isFaceted).Nodup := q.draft_scoped.visible_nodup
  obtain ⟨kept, hkept, hnodup, hperm⟩ := Pipeline.keptNames_project hshown
  refine ⟨kept, ?_, hnodup, hperm⟩
  rw [List.flatten_append, List.flatten_singleton, Pipeline.keptColumns, List.map_append,
    List.map_singleton, List.filterMap_append, List.filterMap_cons_some hkept, List.filterMap_nil,
    List.getLast?_concat]

/-- Facets are the second group, by the partition unless an array goes by the name of the key. -/
theorem groupKeys_ofPlan (hq : ofRequest limits r = .ok q) (h : AnalyzePlan.ofQuery q = .ok plan)
    (hss : Pipeline.ofPlan w plan = .ok ss) {f : Facet} (hf : f ∈ plan.facet?) :
    ∃ first, Pipeline.groupKeys ss =
      [first, if "_id" ∈ f.arrays then ["$push"] else f.partitionKeys] := by
  obtain ⟨hfaceted, rfl⟩ := AnalyzePlan.facet_of_ofQuery h hf
  obtain ⟨-, rfl⟩ := AnalyzePlan.ofQuery_ok h
  obtain ⟨outs, houts, rfl⟩ := bind_pure_ok.mp hss
  have hkeys : (q.draft.keys.map (·.ident)).Nodup :=
    (List.nodup_append.mp q.draft_scoped.columns_nodup).1
  have htotals : "_id" ∉ q.draft.facet.totals.flatMap Pipeline.totalNames := by
    refine (Pipeline.id_notMem_totals fun t ht => ?_).1
    obtain ⟨f, -, -, -, hident, -⟩ := exists_field_of_total hfaceted
      (fun f hf hcount => key_of_ofRequest hq hf hcount) ht
    exact hident ▸ Pipeline.isTotalIdent_ofName f.name
  simp only [stages, if_pos hfaceted, mapM_append_ok, mapM_singleton_ok] at houts
  obtain ⟨_, _, ⟨_, _, ⟨_, _, ⟨_, _, ⟨_, _, ⟨unwinds, tests, hunwinds, htests, rfl⟩,
    ⟨groups, hgroups, rfl⟩, rfl⟩, ⟨_, hfacets, rfl⟩, rfl⟩, horder, rfl⟩, hpage, rfl⟩,
    ⟨_, hproject, rfl⟩, rfl⟩ := houts
  obtain ⟨first, hfirst⟩ := Pipeline.groupKeys_groupStages hgroups hkeys
  obtain rfl := Except.ok.inj hfacets
  obtain rfl := Except.ok.inj hproject
  have hfacet : Pipeline.groupKeys (Pipeline.facetStages q.draft.facet) =
      [if "_id" ∈ q.draft.facet.arrays then ["$push"] else q.draft.facet.partitionKeys] := by
    rw [Pipeline.groupKeys, Pipeline.facetStages, List.map_cons, List.filterMap_cons_some
      (Pipeline.keyNames_facet (hkeys.filter _) htotals)]
    rfl
  have hbefore : Pipeline.groupKeys unwinds.flatten = [] ∧ Pipeline.groupKeys tests.flatten = [] :=
    ⟨Pipeline.groupKeys_flatten (by simp [Stage.group?, Stage.facet?]) hunwinds,
      Pipeline.groupKeys_flatten (by simp [Stage.group?, Stage.facet?]) htests⟩
  have hsort := Pipeline.groupKeys_flatten
    (by split <;> simp [Stage.group?, Stage.facet?]) horder
  have hpaging := Pipeline.groupKeys_flatten
    (by rw [pageStages]; split <;> simp [Stage.group?, Stage.facet?]) hpage
  refine ⟨first, ?_⟩
  simp only [List.flatten_append, List.flatten_singleton, Pipeline.groupKeys_append, hbefore, hfirst,
    hfacet, hsort, hpaging]
  rfl

end CostQuery.AnalyzeQuery

import CostQuery.Proofs.Pipeline.Documents
import CostQuery.Proofs.Record.DisplayNames
import CostQuery.Proofs.Sql.Columns

/-! The slots of pushed tuples, from the fields that ask for them to the results. They go by
identifiers that no registry knows of: two slots may come to have the same one, and none is led back
to the name that was given. -/

namespace CostQuery

namespace FieldSpec
variable {f : FieldSpec}

/-- The identifiers of the slots. -/
def slotIdents (f : FieldSpec) : List String := f.slots.map fun s => Alias.ofName s.1

theorem slotIdents_eq_iff :
    f.slotIdents = f.slots.map Prod.fst ↔ ∀ s ∈ f.slots, Alias.ofName s.1 = s.1 :=
  List.map_inj_left

theorem input_of_push (hpush : f.aggregate = .push) (hkey : f.key ≠ none) :
    f.input = .slots (f.slots.map fun s => (Alias.ofName s.1, Column.ofKey s.2)) := by
  obtain ⟨key, hkey⟩ := Option.ne_none_iff_exists'.mp hkey
  simp only [input, hpush, hkey]

/-- The slots are those that were given, and there are some. -/
theorem slots_of_ofRequest {name : String} {r : Request.Field} (h : ofRequest name r = .ok f)
    (hpush : f.aggregate = .push) : f.name = name ∧ r.fields = some f.slots ∧ f.slots ≠ [] := by
  simp only [ofRequest, bind_ok] at h
  obtain ⟨operator, -, aggregate, -, h⟩ := h
  split at h
  · cases h
  · split at h
    · cases h
    · next hslots =>
      obtain rfl := pure_ok.mp h
      have hsome : r.fields.getD [] ≠ [] := fun hnone =>
        hslots ⟨hpush, List.isEmpty_iff.mpr hnone⟩
      refine ⟨rfl, ?_, hsome⟩
      cases hfields : r.fields with
      | none =>
        rw [hfields] at hsome
        exact absurd rfl hsome
      | some slots => rfl

/-- What a pipeline pushes. -/
def tuple (f : FieldSpec) (w : Warehouse) : Pipeline.Expr :=
  .object (f.slots.map fun s => (Alias.ofName s.1, Pipeline.value w (Column.ofKey s.2)))

/-- The document of it. -/
def members (f : FieldSpec) (w : Warehouse) : Members Json :=
  Members.collect (f.slots.map fun s =>
    (Alias.ofName s.1, (Pipeline.value w (Column.ofKey s.2)).toJson))

theorem toJson_tuple (f : FieldSpec) (w : Warehouse) : (f.tuple w).toJson = .obj (f.members w) := by
  rw [tuple, Pipeline.Expr.toJson, Pipeline.membersToJson_eq, List.map_map]
  rfl

theorem members_of_nodup (h : f.slotIdents.Nodup) (w : Warehouse) :
    f.members w = f.slots.map fun s =>
      (Alias.ofName s.1, (Pipeline.value w (Column.ofKey s.2)).toJson) := by
  refine Members.collect_eq_iff.mpr ?_
  rw [List.map_map]
  exact h

/-- A member for each slot, from the slot's own column. -/
def KeepsEach (f : FieldSpec) (w : Warehouse) : Prop :=
  (f.members w).keys = f.slotIdents ∧ ∀ s ∈ f.slots,
    (f.members w).get? (Alias.ofName s.1) = some (Pipeline.value w (Column.ofKey s.2)).toJson

theorem keepsEach_iff (w : Warehouse) : f.KeepsEach w ↔ f.slotIdents.Nodup := by
  constructor
  · rintro ⟨hkeys, -⟩
    rw [← hkeys]
    exact Members.nodup_keys_collect _
  · intro h
    have hmembers := members_of_nodup h w
    constructor
    · rw [hmembers, Members.keys, List.map_map]
      rfl
    · intro s hs
      refine (Members.mem_iff_get? (Members.nodup_keys_collect _)).mp ?_
      change _ ∈ f.members w
      rw [hmembers]
      exact List.mem_map_of_mem (f := fun s : String × String =>
        (Alias.ofName s.1, (Pipeline.value w (Column.ofKey s.2)).toJson)) hs

/-- A struct with the slots in their order, each read from its own column. -/
def IsStruct (f : FieldSpec) (r : Sql.Reader) (slots : List (String × Sql.Expr)) : Prop :=
  List.Forall₂ (fun s slot => slot.1 = Alias.ofName s.1 ∧ r.column (Column.ofKey s.2) = .ok slot.2)
    f.slots slots

theorem IsStruct.names {r : Sql.Reader} {slots : List (String × Sql.Expr)}
    (h : f.IsStruct r slots) : slots.map Prod.fst = f.slotIdents := by
  rw [IsStruct] at h
  rw [slotIdents]
  generalize f.slots = requested at h ⊢
  induction h with
  | nil => rfl
  | cons hslot _ ih => rw [List.map_cons, List.map_cons, hslot.1, ih]

end FieldSpec

variable {plan : AnalyzePlan} {g : Group} {f : FieldSpec} {w : Warehouse}

theorem Pipeline.mem_pushed {ss : List Stage} (h : ofPlan w plan = .ok ss)
    (hg : plan.group? = some g) (hc : f.column ∈ g.fields) (hpush : f.aggregate = .push)
    (hkey : f.key ≠ none) : ∃ key accumulators, .group key accumulators ∈ ss ∧
      (Alias.ofName f.name, .push (f.tuple w)) ∈ accumulators := by
  obtain ⟨outs, houts, rfl⟩ := bind_pure_ok.mp h
  obtain ⟨out, hout, hstages⟩ := exists_of_forall₂ (mapM_ok houts) (AnalyzePlan.mem_of_group hg)
  simp only [stages, groupStages, bind_ok, pure_ok] at hstages
  obtain ⟨key, -, accumulators, haccumulators, rfl⟩ := hstages
  refine ⟨key, accumulators, List.mem_flatten.mpr ⟨_, hout, List.mem_cons_self⟩, ?_⟩
  obtain ⟨entry, hentry, hmade⟩ := exists_of_forall₂ (mapM_ok haccumulators) hc
  obtain ⟨pushed, hok, rfl⟩ := bind_pure_ok.mp hmade
  rw [accumulator, FieldSpec.column, FieldSpec.input_of_push hpush hkey, hpush] at hok
  obtain rfl := Except.ok.inj hok
  rw [List.map_map] at hentry
  exact hentry

theorem Sql.Reader.isStruct {r : Reader} {e : Expr} (hpush : f.aggregate = .push)
    (hkey : f.key ≠ none) (h : r.aggregateExpr f.column = .ok e) :
    ∃ slots, e = .call .arrayAgg [.struct slots] ∧ f.IsStruct r slots := by
  rw [aggregateExpr, FieldSpec.column, FieldSpec.input_of_push hpush hkey, hpush] at h
  obtain ⟨slots, hslots, rfl⟩ := bind_pure_ok.mp h
  refine ⟨slots, rfl, ?_⟩
  have hall := mapM_ok hslots
  rw [List.forall₂_map_left_iff] at hall
  refine hall.imp fun s slot hslot => ?_
  obtain ⟨e, he, rfl⟩ := bind_pure_ok.mp hslot
  exact ⟨rfl, he⟩

theorem Sql.mem_pushed {st : Statement} (h : Statement.ofAnalyzePlan w plan = .ok st)
    (hg : plan.group? = some g) (hc : f.column ∈ g.fields) (hpush : f.aggregate = .push)
    (hkey : f.key ≠ none) : ∃ base name slots, (baseName, base) ∈ st.subqueries ∧
      ⟨.call .arrayAgg [.struct slots], some name⟩ ∈ base.items ∧
      name.text = Alias.ofName f.name ∧
      f.IsStruct ⟨w, plan.stages.findSome? Stage.unwind?⟩ slots := by
  rw [Statement.ofAnalyzePlan, Reader.analysis, hg] at h
  obtain ⟨base, hbase, h⟩ := bind_ok.mp h
  have hsubquery : (baseName, base) ∈ st.subqueries := by
    split at h
    · simp only [bind_ok, pure_ok] at h
      obtain ⟨facets, -, body, -, paged, -, rfl⟩ := h
      exact List.mem_cons_self
    · simp only [bind_ok, pure_ok] at h
      obtain ⟨body, -, paged, -, rfl⟩ := h
      exact List.mem_cons_self
  simp only [Reader.baseQuery, bind_ok, pure_ok] at hbase
  obtain ⟨table, -, explode, -, filter, -, keys, -, fields, hfields, rfl⟩ := hbase
  obtain ⟨item, hitem, hmade⟩ := exists_of_forall₂ (mapM_ok hfields) hc
  obtain ⟨e, he, hnamed⟩ := bind_ok.mp hmade
  obtain ⟨name, hname, rfl⟩ := bind_pure_ok.mp hnamed
  obtain ⟨slots, rfl, hslots⟩ := Reader.isStruct hpush hkey he
  exact ⟨_, name, slots, hsubquery, List.mem_append_right _ hitem, ofText_ok hname, hslots⟩

/-! Results. -/

/-- The elements of a list. -/
def Json.elements : Json → List Json
  | .arr items => items
  | _ => []

namespace AnalyzePlan
variable {q : AnalyzeQuery} {row : Record} {column shown : String × Json}

/-- The tuples in a pushed column. A facet has them in the values of its items. -/
def tuples (plan : AnalyzePlan) (v : Json) : List Json :=
  match plan.facet? with
  | none => v.elements
  | some _ => v.elements.flatMap fun item =>
      (item.member? facetValue).toList.flatMap Json.elements

/-- The value of an item is found under its own name again. -/
theorem value_of_showsItem (h : ofQuery q = .ok plan) {facet : Facet} {item shown : Members Json}
    (hitem : facet.ShowsItem plan.outputs item shown) :
    shown.get? facetValue = item.get? facetValue := by
  have hall := hitem.members
  clear hitem
  induction hall with
  | nil => rfl
  | @cons member shown members rest hmember _ ih =>
    have hname : shown.1 = facetValue ↔ member.1 = facetValue := by
      by_cases hkey : member.1 ∈ facet.facetKeys
      · -- An identifier without underscores is its own name.
        have hmade : member.1 = Alias.ofName shown.1 := (outputs_valid h).made _ (hmember.key hkey)
        constructor
        · intro hvalue
          rw [hmade, hvalue]
          rfl
        · intro hvalue
          rw [hmade] at hvalue
          have hplain : '_' ∉ (Alias.ofName shown.1).toList := by
            rw [hvalue]
            decide
          exact (Alias.eq_of_ofName hplain).symm.trans hvalue
      · rw [hmember.slot hkey]
    obtain ⟨k, v⟩ := member
    obtain ⟨k', v'⟩ := shown
    obtain rfl := hmember.value
    by_cases hk : k = facetValue
    · rw [Members.get?, Members.get?, if_pos hk, if_pos (hname.mpr hk)]
    · rw [Members.get?, Members.get?, if_neg hk, if_neg (mt hname.mp hk), ih]

theorem tuples_shown (h : ofQuery q = .ok plan) (hshows : plan.ShowsColumn column shown)
    (harray : ∀ facet ∈ plan.facet?, column.1 ∈ facet.arrays) :
    plan.tuples shown.2 = plan.tuples column.2 := by
  cases hfacet : plan.facet? with
  | none =>
    have hplain : shown.2 = column.2 := by
      refine hshows.plain fun facet hmem => ?_
      rw [hfacet] at hmem
      cases hmem
    rw [hplain]
  | some facet =>
    obtain ⟨items, shownItems, hitems, hshown, hall⟩ :=
      hshows.array facet hfacet (harray facet hfacet)
    simp only [tuples, hfacet, hitems, hshown, Json.elements, List.flatMap_map, Json.member?]
    clear hitems hshown
    induction hall with
    | nil => rfl
    | cons hitem _ ih => rw [List.flatMap_cons, List.flatMap_cons, value_of_showsItem h hitem, ih]

/-- A facet gathers every field that is kept. -/
theorem mem_arrays (h : ofQuery q = .ok plan)
    (hkeys : ∀ f ∈ q.fields, f.aggregate ≠ .count → f.key ≠ none) (hg : plan.group? = some g)
    (hc : f.column ∈ g.fields) : ∀ facet ∈ plan.facet?, Alias.ofName f.name ∈ facet.arrays := by
  intro facet hfacet
  obtain ⟨hfaceted, rfl⟩ := facet_of_ofQuery h hfacet
  have htotalled := AnalyzeQuery.draft_totalled hfaceted hkeys
  obtain ⟨-, rfl⟩ := ofQuery_ok h
  obtain rfl := Option.some.inj ((q.group_stages q.draft).symm.trans hg)
  change f.column ∈ q.draft.fields at hc
  change Alias.ofName f.name ∈ q.draft.plannedIdents
  rw [htotalled.fields] at hc
  rw [Draft.plannedIdents, htotalled.planned]
  exact (AnalyzeQuery.traced_fieldDraft hkeys).shown _ hc rfl

/-- The tuples of a field, as a pipeline builds them, as a statement does, and as they are shown. -/
structure Pushes (plan : AnalyzePlan) (w : Warehouse) (f : FieldSpec) : Prop where
  document : ∀ ss, Pipeline.ofPlan w plan = .ok ss → ∃ key accumulators,
    .group key accumulators ∈ ss ∧ (Alias.ofName f.name, .push (f.tuple w)) ∈ accumulators
  struct : ∀ st, Sql.Statement.ofAnalyzePlan w plan = .ok st → ∃ base name slots,
    (Sql.baseName, base) ∈ st.subqueries ∧
      ⟨.call .arrayAgg [.struct slots], some name⟩ ∈ base.items ∧
      name.text = Alias.ofName f.name ∧ slots.map Prod.fst = f.slotIdents ∧
      f.IsStruct ⟨w, plan.stages.findSome? Stage.unwind?⟩ slots
  shown : ∀ row v, plan.Returns row → (Alias.ofName f.name, v) ∈ row →
    Alias.ofName f.name ≠ "_id" →
      ∃ v', (f.name, v') ∈ plan.record row ∧ plan.tuples v' = plan.tuples v

theorem shown_of_returns (h : ofQuery q = .ok plan)
    (hkeys : ∀ f ∈ q.fields, f.aggregate ≠ .count → f.key ≠ none) (hg : plan.group? = some g)
    (hkeeps : plan.Keeps g f) (hrow : plan.Returns row) {v : Json}
    (hv : (Alias.ofName f.name, v) ∈ row) (hid : Alias.ofName f.name ≠ "_id") :
    ∃ v', (f.name, v') ∈ plan.record row ∧ plan.tuples v' = plan.tuples v := by
  obtain ⟨⟨name, v'⟩, hmem, hshows⟩ := exists_of_forall₂ (showsRow_record h hrow).columns
    (List.mem_filter.mpr ⟨hv, decide_eq_true hid⟩)
  obtain rfl : name = f.name := (OutputColumn.mk.inj
    ((outputs_valid h).eq_of_ident hshows.name hkeeps.named rfl)).2
  exact ⟨v', hmem, tuples_shown h hshows (mem_arrays h hkeys hg hkeeps.column)⟩

/-- The tuples of a pushed field have its slots, each from its own column, under their identifiers:
all of them if no two have the same identifier, and under the names that were given if those are
identifiers. -/
theorem slots_pushed {limits : RangeLimits} {r : Request}
    (hq : AnalyzeQuery.ofRequest limits r = .ok q) (h : ofQuery q = .ok plan)
    (hf : f ∈ q.fields) (hpush : f.aggregate = .push) (hg : plan.group? = some g)
    (hkeeps : plan.Keeps g f) (w : Warehouse) :
    (∃ field, (f.name, field) ∈ r.fields ∧ field.fields = some f.slots ∧ f.slots ≠ []) ∧
      plan.Pushes w f ∧ (f.tuple w).toJson = .obj (f.members w) ∧
      (f.KeepsEach w ↔ f.slotIdents.Nodup) ∧
      (f.slotIdents = f.slots.map Prod.fst ↔ ∀ s ∈ f.slots, Alias.ofName s.1 = s.1) := by
  have hkeys : ∀ f ∈ q.fields, f.aggregate ≠ .count → f.key ≠ none :=
    fun f hf hcount => AnalyzeQuery.key_of_ofRequest hq hf hcount
  have hkey : f.key ≠ none := hkeys f hf (by simp [hpush])
  refine ⟨?_, ⟨fun ss hss => ?_, fun st hst => ?_, fun row v hrow hv hid => ?_⟩,
    f.toJson_tuple w, f.keepsEach_iff w, f.slotIdents_eq_iff⟩
  · obtain ⟨⟨name, field⟩, hmem, hfield⟩ :=
      exists_of_forall₂ (AnalyzeQuery.of_ofRequest hq).1.flip hf
    obtain ⟨rfl, hslots⟩ := FieldSpec.slots_of_ofRequest hfield hpush
    exact ⟨field, hmem, hslots⟩
  · exact Pipeline.mem_pushed hss hg hkeeps.column hpush hkey
  · obtain ⟨base, name, slots, hbase, hitem, hname, hstruct⟩ :=
      Sql.mem_pushed hst hg hkeeps.column hpush hkey
    exact ⟨base, name, slots, hbase, hitem, hname, hstruct.names, hstruct⟩
  · exact shown_of_returns h hkeys hg hkeeps hrow hv hid

end AnalyzePlan

def itemsField : FieldSpec :=
  ⟨"line items", .push, some "cost", [("amount", "cost"), ("id", "cost_id")]⟩

/-- The daily costs of a provider one by one, listed over regions. -/
def itemsRequest : Request :=
  { regionRequest with
    fields := [("line items",
      { operator := some "push", key := some "cost", fields := some itemsField.slots })]
    sort := [] }

def itemsQuery : AnalyzeQuery := { regionQuery with fields := [itemsField], sort := [] }

/-- A cost with its identifier. -/
def itemsTuple : Json := .obj [("amount", .int 3), ("id", .str "c1")]

def itemsRow : Record :=
  [("date", .str "2024-02-01"), ("provider", .str "aws"),
    ("line_items", .arr [.obj [("region", .str "eu"), ("value", .arr [itemsTuple])]])]

theorem returns_itemsRow {plan : AnalyzePlan} (h : AnalyzePlan.ofQuery itemsQuery = .ok plan) :
    plan.Returns itemsRow := by
  refine ⟨?_, fun f hf e he harray => ?_⟩
  · obtain ⟨-, rfl⟩ := AnalyzePlan.ofQuery_ok h
    rfl
  · obtain rfl := (AnalyzePlan.facet_of_ofQuery h hf).2
    have harrays : itemsQuery.draft.facet.arrays = ["line_items"] := rfl
    have hkeys : itemsQuery.draft.facet.facetKeys = ["region"] := rfl
    have hvalues : ∀ e ∈ itemsRow, e.1 ∈ ["line_items"] →
        e.2 = .arr [.obj [("region", .str "eu"), ("value", .arr [itemsTuple])]] := by
      simp [itemsRow]
    refine ⟨[_], hvalues e he (harrays ▸ harray), List.forall_mem_singleton.mpr ?_⟩
    refine ⟨by decide, fun name => ?_⟩
    simp [Members.keys, hkeys, facetValue]

theorem keeps_itemsField {plan : AnalyzePlan} {g : Group}
    (h : AnalyzePlan.ofQuery itemsQuery = .ok plan) (hg : plan.group? = some g) :
    plan.Keeps g itemsField := by
  obtain ⟨-, rfl⟩ := AnalyzePlan.ofQuery_ok h
  obtain rfl := Option.some.inj hg
  exact ⟨List.mem_of_getElem? (i := 0) rfl, List.mem_of_getElem? (i := 3) rfl⟩

/-- Slots that are identifiers are told apart, and shown under their names, two levels deep. -/
theorem slots_pushed_items :
    ∃ plan g v, AnalyzeQuery.ofRequest {} itemsRequest = .ok itemsQuery ∧
      AnalyzePlan.ofQuery itemsQuery = .ok plan ∧ plan.group? = some g ∧
      plan.Keeps g itemsField ∧ plan.Pushes {} itemsField ∧ itemsField.KeepsEach {} ∧
      itemsField.slotIdents = ["amount", "id"] ∧
      ("line items", v) ∈ plan.record itemsRow ∧ plan.tuples v = [itemsTuple] := by
  have hq : AnalyzeQuery.ofRequest {} itemsRequest = .ok itemsQuery := rfl
  have h : AnalyzePlan.ofQuery itemsQuery = .ok _ := rfl
  have hkeeps := keeps_itemsField h rfl
  obtain ⟨-, hpushes, -, heach, hnames⟩ := AnalyzePlan.slots_pushed hq h
    (List.mem_singleton_self itemsField) rfl rfl hkeeps {}
  obtain ⟨v, hv, htuples⟩ := hpushes.shown itemsRow _ (returns_itemsRow h)
    (List.mem_of_getElem? (i := 2) rfl) (by decide)
  exact ⟨_, _, v, hq, h, rfl, hkeeps, hpushes, heach.mpr (by decide),
    hnames.mpr (by decide), hv, htuples⟩

def spacedField : FieldSpec :=
  ⟨"items", .push, some "cost", [("cost usd", "cost"), ("cost_usd", "usage")]⟩

/-- Two slots that come to have one identifier. -/
def spacedRequest : Request :=
  { itemsRequest with
    fields := [("items",
      { operator := some "push", key := some "cost", fields := some spacedField.slots })]
    fieldGroup := [] }

def spacedQuery : AnalyzeQuery := { itemsQuery with fields := [spacedField], fieldGroup := [] }

/-- A document keeps one of them, a struct has both under one name, and the cost is not shown under
the name that was given. -/
theorem spacedRequest_lost :
    ∃ plan row, AnalyzeQuery.ofRequest {} spacedRequest = .ok spacedQuery ∧
      AnalyzePlan.ofQuery spacedQuery = .ok plan ∧ spacedField ∈ spacedQuery.fields ∧
      (spacedField.slots.map Prod.fst).Nodup ∧ (spacedField.members {}).keys = ["cost_usd"] ∧
      spacedField.slotIdents = ["cost_usd", "cost_usd"] ∧ plan.Returns row ∧
      (plan.result [row]).results = [[("date", .str "2024-02-01"), ("provider", .str "aws"),
        ("items", .arr [.obj [("cost_usd", .int 3)]])]] := by
  refine ⟨_, [("date", .str "2024-02-01"), ("provider", .str "aws"),
    ("items", .arr [.obj [("cost_usd", .int 3)]])], rfl, rfl, List.mem_singleton_self _,
    by decide, rfl, rfl, ⟨rfl, nofun⟩, rfl⟩

end CostQuery

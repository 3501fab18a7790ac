import CostQuery.Proofs.Members
import CostQuery.Proofs.Plan.Names
import CostQuery.Record.Result

/-! Rows of an analysis under the names that were asked for. No column is lost on the way, but for
one under the name of the key of a group. -/

namespace CostQuery

section
variable {outputs : List OutputColumn} {names : List String} {ident : String}

theorem displayName_of_mem (h : Registry.Valid { entries := outputs }) {e : OutputColumn}
    (he : e ∈ outputs) : displayName outputs e.ident = e.name := by
  have hsome : (outputs.find? (·.ident = e.ident)).isSome :=
    List.find?_isSome.mpr ⟨e, he, decide_eq_true rfl⟩
  obtain ⟨owner, howner⟩ := Option.isSome_iff_exists.mp hsome
  obtain ⟨hmem, hident⟩ := Registry.ident_of_ownerOf (r := { entries := outputs }) howner
  rw [displayName, howner, h.eq_of_ident hmem he hident]

theorem displayName_of_notMem (h : ident ∉ outputs.map (·.ident)) :
    displayName outputs ident = ident := by
  have hnone : outputs.find? (·.ident = ident) = none :=
    Registry.ownerOf_none (r := { entries := outputs }).mpr h
  rw [displayName, hnone]

/-- A name that stands for an identifier leads back to it. -/
theorem ofName_displayName (h : Registry.Valid { entries := outputs })
    (hident : Alias.ofName ident = ident) : Alias.ofName (displayName outputs ident) = ident := by
  by_cases hmem : ident ∈ outputs.map (·.ident)
  · obtain ⟨e, he, rfl⟩ := List.mem_map.mp hmem
    rw [displayName_of_mem h he]
    exact (h.made e he).symm
  · rw [displayName_of_notMem hmem, hident]

/-- So no two identifiers come to go by one name. -/
theorem nodup_displayNames (h : Registry.Valid { entries := outputs })
    (hidents : ∀ name ∈ names, Alias.ofName name = name) (hnodup : names.Nodup) :
    (names.map (displayName outputs)).Nodup := by
  have hback : (names.map (displayName outputs)).map Alias.ofName = names := by
    rw [List.map_map]
    exact (List.map_congr_left fun name hname =>
      ofName_displayName h (hidents name hname)).trans (List.map_id _)
  exact List.Nodup.of_map _ (hback ▸ hnodup)

/-- Renamed, members stay as many as they were, and in their order. -/
theorem renamed_eq_map (h : Registry.Valid { entries := outputs }) {members : Members Json}
    (hidents : ∀ name ∈ members.keys, Alias.ofName name = name) (hnodup : members.keys.Nodup) :
    renamed outputs members = members.map (fun e => (displayName outputs e.1, e.2)) ∧
      (renamed outputs members).keys.Nodup := by
  have hnames : ((members.map fun e => (displayName outputs e.1, e.2)).map Prod.fst).Nodup := by
    have hmap : (members.map fun e => (displayName outputs e.1, e.2)).map Prod.fst =
        members.keys.map (displayName outputs) := by
      rw [Members.keys, List.map_map, List.map_map]
      rfl
    rw [hmap]
    exact nodup_displayNames h hidents hnodup
  exact ⟨Members.collect_eq_iff.mpr hnames, Members.nodup_keys_collect _⟩

end

/-- An item of an array column: a value, told apart by the facet keys. -/
structure Facet.IsItem (f : Facet) (item : Members Json) : Prop where
  names_nodup : item.keys.Nodup
  mem_names : ∀ name, name ∈ item.keys ↔ name ∈ f.facetKeys ∨ name = facetValue

/-- A member of an item under the name that was asked for. The value keeps its own. -/
structure Facet.ShowsMember (f : Facet) (outputs : List OutputColumn)
    (member shown : String × Json) : Prop where
  key : member.1 ∈ f.facetKeys → ⟨member.1, shown.1⟩ ∈ outputs
  slot : member.1 ∉ f.facetKeys → shown.1 = member.1
  value : shown.2 = member.2

/-- An item with all of its members. -/
structure Facet.ShowsItem (f : Facet) (outputs : List OutputColumn) (item shown : Members Json) :
    Prop where
  members : List.Forall₂ (f.ShowsMember outputs) item shown
  names_nodup : shown.keys.Nodup

namespace AnalyzePlan

/-- A row as a store gives it for the plan. -/
structure Returns (plan : AnalyzePlan) (row : Record) : Prop where
  columns : plan.stages.findSome? Stage.project? = some row.keys
  arrays : ∀ f ∈ plan.facet?, ∀ e ∈ row, e.1 ∈ f.arrays →
    ∃ items : List (Members Json), e.2 = .arr (items.map .obj) ∧ ∀ item ∈ items, f.IsItem item

/-- A column under the name that was asked for. -/
structure ShowsColumn (plan : AnalyzePlan) (column shown : String × Json) : Prop where
  name : ⟨column.1, shown.1⟩ ∈ plan.outputs
  plain : (∀ f ∈ plan.facet?, column.1 ∉ f.arrays) → shown.2 = column.2
  array : ∀ f ∈ plan.facet?, column.1 ∈ f.arrays → ∃ items shownItems : List (Members Json),
    column.2 = .arr (items.map .obj) ∧ shown.2 = .arr (shownItems.map .obj) ∧
      List.Forall₂ (f.ShowsItem plan.outputs) items shownItems

/-- A record with the columns of a row. It lacks the key of a group, and no other. -/
structure ShowsRow (plan : AnalyzePlan) (row record : Record) : Prop where
  columns : List.Forall₂ plan.ShowsColumn (row.filter fun e => e.1 ≠ "_id") record
  names_nodup : record.keys.Nodup
  whole_iff : List.Forall₂ plan.ShowsColumn row record ↔ "_id" ∉ row.keys

/-- The rows of a page. -/
def onPage (plan : AnalyzePlan) (rows : List Record) : List Record :=
  match plan.pageLimit with
  | some limit => rows.take limit
  | none => rows

variable {q : AnalyzeQuery} {plan : AnalyzePlan} {row : Record} {f : Facet}

theorem mem_outputs (h : ofQuery q = .ok plan) {ident : String}
    (hident : (∃ shown, plan.stages.findSome? Stage.project? = some shown ∧ ident ∈ shown) ∨
      ∃ f ∈ plan.facet?, ident ∈ f.facetKeys) : ident ∈ plan.outputs.map (·.ident) := by
  have hfacet := fun f (hf : f ∈ plan.facet?) => (facet_of_ofQuery h hf).2
  obtain ⟨-, rfl⟩ := ofQuery_ok h
  rw [q.draft_scoped.mem_outputs]
  rcases hident with ⟨shown, hshown, hident⟩ | ⟨f, hf, hident⟩
  · rw [q.project_stages] at hshown
    exact Or.inl (Option.some.inj hshown ▸ hident)
  · rw [hfacet f hf] at hident
    exact Or.inr hident

theorem ofName_of_outputs (h : ofQuery q = .ok plan) {ident : String}
    (hident : ident ∈ plan.outputs.map (·.ident)) : Alias.ofName ident = ident := by
  obtain ⟨e, he, rfl⟩ := List.mem_map.mp hident
  rw [(outputs_valid h).made e he, Alias.ofName_ofName]

theorem displayName_outputs (h : ofQuery q = .ok plan) {ident : String}
    (hident : ident ∈ plan.outputs.map (·.ident)) :
    ⟨ident, displayName plan.outputs ident⟩ ∈ plan.outputs := by
  obtain ⟨e, he, rfl⟩ := List.mem_map.mp hident
  rw [displayName_of_mem (outputs_valid h) he]
  exact he

theorem showsItem_renamed (h : ofQuery q = .ok plan) (hf : f ∈ plan.facet?) {item : Members Json}
    (hitem : f.IsItem item) : f.ShowsItem plan.outputs item (renamed plan.outputs item) := by
  have hkey : ∀ name ∈ f.facetKeys, name ∈ plan.outputs.map (·.ident) := fun name hname =>
    mem_outputs h (Or.inr ⟨f, hf, hname⟩)
  have hidents : ∀ name ∈ item.keys, Alias.ofName name = name := by
    intro name hname
    rcases (hitem.mem_names name).mp hname with hname | rfl
    · exact ofName_of_outputs h (hkey name hname)
    · rfl
  obtain ⟨heq, hnodup⟩ := renamed_eq_map (outputs_valid h) hidents hitem.names_nodup
  refine ⟨?_, hnodup⟩
  rw [heq, List.forall₂_map_right_iff, List.forall₂_same]
  intro e he
  refine ⟨fun hname => displayName_outputs h (hkey e.1 hname), fun hname => ?_, rfl⟩
  -- The value may be a column besides, but an identifier without underscores is its own name.
  have hvalue : e.1 = facetValue :=
    ((hitem.mem_names e.1).mp (List.mem_map_of_mem he)).resolve_left hname
  have hback := ofName_displayName (outputs_valid h) (hidents e.1 (List.mem_map_of_mem he))
  have hplain : '_' ∉ (Alias.ofName (displayName plan.outputs e.1)).toList := by
    rw [hback, hvalue]
    decide
  exact (Alias.eq_of_ofName hplain).symm.trans hback

theorem renamedItems_objects (outputs : List OutputColumn) (items : List (Members Json)) :
    renamedItems outputs (.arr (items.map .obj)) =
      .arr ((items.map (renamed outputs)).map .obj) := by
  rw [renamedItems, List.map_map, List.map_map]
  rfl

theorem showsColumn_renamed (h : ofQuery q = .ok plan) (hrow : plan.Returns row)
    {e : String × Json} (he : e ∈ row) :
    plan.ShowsColumn e (displayName plan.outputs e.1,
      if plan.arrays.contains e.1 then renamedItems plan.outputs e.2 else e.2) := by
  constructor
  case name =>
    exact displayName_outputs h (mem_outputs h
      (Or.inl ⟨row.keys, hrow.columns, List.mem_map_of_mem he⟩))
  case plain =>
    intro hplain
    refine if_neg ?_
    rw [List.contains_iff_mem, arrays]
    split
    · next f hf => exact hplain f hf
    · exact List.not_mem_nil
  case array =>
    intro f hf harray
    obtain ⟨items, hitems, hshape⟩ := hrow.arrays f hf e he harray
    have hcontains : plan.arrays.contains e.1 = true := by
      rw [List.contains_iff_mem, arrays, Option.mem_def.mp hf]
      exact harray
    refine ⟨items, items.map (renamed plan.outputs), hitems, ?_, ?_⟩
    · simp only [hcontains, if_true, hitems, renamedItems_objects]
    · rw [List.forall₂_map_right_iff, List.forall₂_same]
      exact fun item hitem => showsItem_renamed h hf (hshape item hitem)

/-- The columns of a row that are shown, with their items. -/
def shownColumns (plan : AnalyzePlan) (row : Record) : Members Json :=
  (row.filter fun e => e.1 ≠ "_id").map fun e =>
    (e.1, if plan.arrays.contains e.1 then renamedItems plan.outputs e.2 else e.2)

theorem keys_shownColumns (plan : AnalyzePlan) (row : Record) :
    (plan.shownColumns row).keys = (row.filter fun e => e.1 ≠ "_id").map Prod.fst := by
  rw [shownColumns, Members.keys, List.map_map]
  rfl

theorem record_eq_map (h : ofQuery q = .ok plan) (hrow : plan.Returns row) :
    plan.record row =
        (plan.shownColumns row).map (fun e => (displayName plan.outputs e.1, e.2)) ∧
      (plan.record row).keys.Nodup := by
  have hnodup : row.keys.Nodup := by
    have hshown := hrow.columns
    obtain ⟨-, rfl⟩ := ofQuery_ok h
    rw [q.project_stages] at hshown
    exact Option.some.inj hshown ▸ q.draft_scoped.visible_nodup
  have hsub : (plan.shownColumns row).keys.Sublist row.keys := by
    rw [keys_shownColumns]
    exact List.filter_sublist.map Prod.fst
  have hidents : ∀ name ∈ (plan.shownColumns row).keys, Alias.ofName name = name := by
    intro name hname
    exact ofName_of_outputs h (mem_outputs h
      (Or.inl ⟨row.keys, hrow.columns, hsub.subset hname⟩))
  exact renamed_eq_map (outputs_valid h) hidents (hnodup.sublist hsub)

theorem showsRow_record (h : ofQuery q = .ok plan) (hrow : plan.Returns row) :
    plan.ShowsRow row (plan.record row) := by
  obtain ⟨heq, hnames⟩ := record_eq_map h hrow
  have hcolumns : List.Forall₂ plan.ShowsColumn (row.filter fun e => e.1 ≠ "_id")
      (plan.record row) := by
    rw [heq, shownColumns, List.map_map, List.forall₂_map_right_iff, List.forall₂_same]
    exact fun e he => showsColumn_renamed h hrow (List.mem_of_mem_filter he)
  refine ⟨hcolumns, hnames, fun hwhole hid => ?_, fun hid => ?_⟩
  · have hlength := hcolumns.length_eq.trans hwhole.length_eq.symm
    obtain ⟨e, he, hname⟩ := List.mem_map.mp hid
    exact of_decide_eq_true (List.length_filter_eq_length_iff.mp hlength e he) hname
  · have hall : row.filter (fun e => e.1 ≠ "_id") = row := List.filter_eq_self.mpr fun e he =>
      decide_eq_true fun hname => hid (hname ▸ List.mem_map_of_mem he)
    rwa [hall] at hcolumns

/-- Every row of the page is shown, member by member, under names that the query gives. A column is
missing only if it goes by the name of the key of a group. -/
theorem result_shows {rows : List Record} (h : ofQuery q = .ok plan)
    (hrows : ∀ row ∈ rows, plan.Returns row) :
    (∀ e ∈ plan.outputs, e.name ∈ q.columnNames ∧ e.ident = Alias.ofName e.name) ∧
      List.Forall₂ plan.ShowsRow (plan.onPage rows) (plan.result rows).results := by
  refine ⟨fun e he => ⟨name_of_outputs h he, (outputs_valid h).made e he⟩, ?_⟩
  have hresults : (plan.result rows).results = (plan.onPage rows).map plan.record := by
    cases hlimit : plan.pageLimit <;> simp only [result, onPage, hlimit]
  have hpage : plan.onPage rows ⊆ rows := by
    rw [onPage]
    split
    · exact List.take_subset _ _
    · exact List.Subset.refl _
  rw [hresults, List.forall₂_map_right_iff, List.forall₂_same]
  exact fun row hrow => showsRow_record h (hrows row (hpage hrow))

end AnalyzePlan

def regionItem : Members Json := [("region", .str "eu"), ("value", .int 3)]

/-- A day of one provider, with its costs in one region. -/
def regionRow : Record :=
  [("date", .str "2024-02-01"), ("provider", .str "aws"), ("_total_cost", .int 3),
    ("_total_mean_cost", .int 3), ("cost", .arr [.obj regionItem]),
    ("mean_cost", .arr [.obj regionItem])]

theorem returns_regionRow {plan : AnalyzePlan} (h : AnalyzePlan.ofQuery regionQuery = .ok plan) :
    plan.Returns regionRow := by
  refine ⟨?_, fun f hf e he harray => ?_⟩
  · obtain ⟨-, rfl⟩ := AnalyzePlan.ofQuery_ok h
    rfl
  · obtain rfl := (AnalyzePlan.facet_of_ofQuery h hf).2
    have harrays : regionQuery.draft.facet.arrays = ["cost", "mean_cost"] := rfl
    have hkeys : regionQuery.draft.facet.facetKeys = ["region"] := rfl
    have hvalues : ∀ e ∈ regionRow, e.1 ∈ ["cost", "mean_cost"] → e.2 = .arr [.obj regionItem] := by
      simp [regionRow]
    refine ⟨[regionItem], hvalues e he (harrays ▸ harray), List.forall_mem_singleton.mpr ?_⟩
    refine ⟨by decide, fun name => ?_⟩
    simp [regionItem, Members.keys, hkeys, facetValue]

/-- The mean of the costs is shown under its name, as a list over regions. -/
theorem result_shows_region :
    ∃ plan, AnalyzePlan.ofQuery regionQuery = .ok plan ∧
      (∀ row ∈ [regionRow], plan.Returns row) ∧ ⟨"mean_cost", "mean cost"⟩ ∈ plan.outputs ∧
      List.Forall₂ plan.ShowsRow [regionRow] (plan.result [regionRow]).results := by
  have h : AnalyzePlan.ofQuery regionQuery = .ok _ := rfl
  have hreturns := List.forall_mem_singleton.mpr (returns_regionRow h)
  exact ⟨_, h, hreturns, List.mem_of_getElem? (i := 4) rfl,
    (AnalyzePlan.result_shows h hreturns).2⟩

/-- The costs by provider, under the name of the key of a group. -/
def idKeyRequest : Request :=
  { regionRequest with
    groupBy := [.obj [("key", .str "provider"), ("name", .str "_id")]]
    fields := [("cost", { operator := some "sum", key := some "cost" })]
    fieldGroup := [] }

def idKeyQuery : AnalyzeQuery :=
  { regionQuery with
    groupBy := [⟨"provider", "_id"⟩]
    fields := [⟨"cost", .sum, some "cost", []⟩]
    fieldGroup := [] }

/-- The provider is asked for and returned, but not shown. -/
theorem idKeyRequest_lost :
    ∃ plan row, AnalyzeQuery.ofRequest {} idKeyRequest = .ok idKeyQuery ∧
      AnalyzePlan.ofQuery idKeyQuery = .ok plan ∧ plan.Returns row ∧
      row.get? "_id" = some (.str "aws") ∧
      (plan.result [row]).results = [[("date", .str "2024-02-01"), ("cost", .int 3)]] := by
  refine ⟨_, [("date", .str "2024-02-01"), ("_id", .str "aws"), ("cost", .int 3)], rfl, rfl,
    ⟨rfl, nofun⟩, rfl, rfl⟩

end CostQuery

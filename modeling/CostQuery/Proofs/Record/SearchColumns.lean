import CostQuery.Plan.Search
import CostQuery.Proofs.Record.DisplayNames
import CostQuery.Proofs.Sql.Columns
import CostQuery.Record.Cell
import CostQuery.Sql.Search

/-! Rows of a search under the names that were asked for. A column is lost only under one of the
names that the statement takes for itself. -/

namespace CostQuery

namespace Registry

/-- The names of the items kept are registered, in their order. -/
theorem keepNew_spec {α : Type} (name : α → String) {r : Registry} (h : r.Valid) (as : List α) :
    (r.keepNew name as).2.Valid ∧ (r.keepNew name as).2.entries =
      r.entries ++ ((r.keepNew name as).1.map name).map OutputColumn.named := by
  induction as generalizing r with
  | nil => exact ⟨h, (List.append_nil _).symm⟩
  | cons a rest ih =>
    obtain ⟨hvalid, hentries⟩ := ih (h.register (name a))
    rcases register_cases r (name a) with ⟨-, hnew⟩ | ⟨-, hnone, -, hsame⟩
    · simp only [keepNew, hnew] at hvalid hentries ⊢
      refine ⟨hvalid, ?_⟩
      rw [hentries, List.append_assoc]
      rfl
    · cases hreg : r.register (name a) with
      | mk registration r' =>
        rw [hreg] at hnone hsame hvalid hentries
        cases registration with
        | new ident => cases hnone
        | existing ident | collision ident =>
          simp only [keepNew, hreg]
          exact ⟨hvalid, hsame ▸ hentries⟩

end Registry

/-- The outputs of a list of rows: the columns projected, and after them the computed ones. -/
theorem SearchQuery.listing_outputs (q : SearchQuery) (w : Warehouse) :
    (q.listing w).2.Valid ∧ (q.only ≠ [] ∨ q.minimal = true →
      ∃ columns, (q.listing w).1.projection = .columns columns ∧ (q.listing w).2.entries =
        (columns.map Column.key ++ (q.listing w).1.computed.map Prod.fst).map
          OutputColumn.named) := by
  rw [listing]
  cases hkeys : q.projectedKeys? w with
  | none =>
    refine ⟨(Registry.keepNew_spec Prod.fst Registry.valid_empty q.select).1, fun hprojected => ?_⟩
    rw [projectedKeys?] at hkeys
    rcases hprojected with honly | hminimal
    · rw [if_pos (by simpa using honly)] at hkeys
      cases hkeys
    · rw [if_pos hminimal] at hkeys
      split at hkeys <;> cases hkeys
  | some keys =>
    obtain ⟨hvalid, hentries⟩ :=
      Registry.keepNew_spec Column.key Registry.valid_empty (keys.map Column.ofKey)
    obtain ⟨hvalid', hentries'⟩ := Registry.keepNew_spec Prod.fst hvalid q.select
    refine ⟨hvalid', fun _ => ⟨_, rfl, ?_⟩⟩
    have hnames : ∀ kept : List (String × SelectExpr),
        (kept.map fun s => (s.1, Computed.ofSelect s.2)).map Prod.fst =
          kept.map Prod.fst := by
      intro kept
      rw [List.map_map]
      rfl
    rw [hentries', hentries, List.map_append, hnames]
    rfl

/-- The columns that a statement has for itself: the number of rows, and the item of a list that is
spread over rows. -/
def Sql.ownNames : List String := [Sql.windowCountName.text, Sql.unwoundName.text]

theorem keys_entriesToJson (row : Row) : Members.keys (entriesToJson row) = row.map Prod.fst := by
  rw [entriesToJson_eq_map, Members.keys, List.map_map]
  rfl

/-- A column that comes after others may have the name of one of them. -/
theorem Record.ofRow_concat {row : Row} (h : (row.map Prod.fst).Nodup) (name : String)
    (cell : Cell) :
    ofRow (row ++ [(name, cell)]) = Members.put (entriesToJson row) name cell.toJson := by
  have hcollect : Members.collect (entriesToJson row) = entriesToJson row := by
    rw [Members.collect_eq_iff, ← Members.keys, keys_entriesToJson]
    exact h
  rw [ofRow, entriesToJson_eq_map, List.map_append, List.map_singleton, Members.collect_concat,
    ← entriesToJson_eq_map, hcollect]

section
variable {outputs : List OutputColumn} {row : Row}

/-- Cells in their places, renamed by their names or by the places. -/
theorem renamed_places (keep : String → Bool) {rename : String → String}
    (h : List.Forall₂ (fun (output : OutputColumn) (e : String × Cell) => e.1 = output.ident)
      outputs row) (hrename : ∀ output ∈ outputs, rename output.ident = output.name) :
    ((entriesToJson row).filter fun e => keep e.1).map (fun e => (rename e.1, e.2)) =
      ((outputs.zip row).filter fun e => keep e.1.ident).map
        fun e => (e.1.name, e.2.2.toJson) := by
  induction h with
  | nil => rfl
  | @cons output e outputs row he _ ih =>
    obtain ⟨k, cell⟩ := e
    obtain rfl : k = output.ident := he
    obtain ⟨hfirst, hrest⟩ := List.forall_mem_cons.mp hrename
    rw [entriesToJson, List.zip_cons_cons, List.filter_cons, List.filter_cons]
    by_cases hkeep : keep output.ident = true
    · rw [if_pos hkeep, if_pos hkeep, List.map_cons, List.map_cons, ih hrest, hfirst]
    · rw [if_neg hkeep, if_neg hkeep, ih hrest]

end

namespace SearchPlan
variable {w : Warehouse} {q : SearchQuery} {l : Listing} {st : Sql.Statement}

theorem listing_of_mode (h : (ofQuery w q).mode = .rows l) :
    l = (q.listing w).1 ∧ (ofQuery w q).outputs = (q.listing w).2.entries := by
  simp only [ofQuery, SearchQuery.mode] at h ⊢
  split at h
  · cases h
  · next hcount =>
    split at h
    · cases h
    · simp only [hcount]
      exact ⟨(SearchMode.rows.inj h).symm, rfl⟩

theorem outputs_valid (h : (ofQuery w q).mode = .rows l) :
    Registry.Valid { entries := (ofQuery w q).outputs } := by
  have hvalid := (q.listing_outputs w).1
  rw [(listing_of_mode h).2]
  exact ⟨hvalid.made, hvalid.idents_nodup⟩

/-- The statement gives the outputs, and the number of rows after them. -/
theorem columns_of_statement (h : (ofQuery w q).mode = .rows l)
    (hprojected : q.only ≠ [] ∨ q.minimal = true)
    (hst : Sql.Statement.ofSearchPlan w (ofQuery w q) = .ok st) :
    st.outputs = (ofQuery w q).outputs.map (·.ident) ++ [Sql.windowCountName.text] := by
  obtain ⟨rfl, houtputs⟩ := listing_of_mode h
  obtain ⟨columns, hcolumns, hentries⟩ := (q.listing_outputs w).2 hprojected
  simp only [Sql.Statement.ofSearchPlan, Sql.Reader.search, h, bind_ok, pure_ok,
    Sql.Reader.listed, Sql.Reader.projected, hcolumns] at hst
  obtain ⟨table, -, explode, -, filter, -, _, ⟨items, hitems, computed, hcomputed, order, -, rfl⟩,
    rfl⟩ := hst
  have hitem : items.flatMap (·.outputs []) = columns.map fun c => Alias.ofName c.key := by
    refine Sql.outputs_of_mapM _ hitems fun c item hitem => ?_
    obtain ⟨e, -, hnamed⟩ := bind_ok.mp hitem
    exact (Sql.named_ok hnamed).2 []
  have hcomputedItem : computed.flatMap (·.outputs []) =
      (q.listing w).1.computed.map fun c => Alias.ofName c.1 := by
    refine Sql.outputs_of_mapM _ hcomputed fun c item hitem => ?_
    obtain ⟨e, -, hnamed⟩ := bind_ok.mp hitem
    exact (Sql.named_ok hnamed).2 []
  change (items ++ computed ++ [Sql.Reader.countItem]).flatMap (·.outputs []) = _
  rw [List.flatMap_append, List.flatMap_append, hitem, hcomputedItem, houtputs, hentries]
  simp [OutputColumn.named, Sql.Reader.countItem, Sql.Item.outputs, Function.comp_def]

/-- What is asked of a row: every output under its name, with the cell in its place. -/
def requested (p : SearchPlan) (row : Row) : Record :=
  (p.outputs.zip row).map fun e => (e.1.name, e.2.2.toJson)

/-- The part of it that is not under a name of the statement's own. -/
def shown (p : SearchPlan) (row : Row) : Record :=
  ((p.outputs.zip row).filter fun e => e.1.ident ∉ Sql.ownNames).map
    fun e => (e.1.name, e.2.2.toJson)

theorem record_eq_renamed (p : SearchPlan) (record : Record) :
    p.record record = renamed p.outputs (record.filter fun e => e.1 ∉ Sql.ownNames) := by
  rw [SearchPlan.record]
  congr 2
  funext e
  simp [Sql.ownNames]

section
variable {p : SearchPlan} {row : Row}
  (hrow : row.map Prod.fst = p.outputs.map (·.ident) ++ [Sql.windowCountName.text])
include hrow

/-- A row has a cell for every output, and the number of rows after them. -/
theorem exists_places : ∃ cells count, row = cells ++ [(Sql.windowCountName.text, count)] ∧
    cells.map Prod.fst = p.outputs.map (·.ident) ∧
    List.Forall₂ (fun (output : OutputColumn) (e : String × Cell) => e.1 = output.ident)
      p.outputs cells := by
  obtain ⟨cells, last, rfl, hcells, hlast⟩ := List.map_eq_append_iff.mp hrow
  obtain ⟨⟨name, count⟩, rfl, hname⟩ := List.map_eq_singleton_iff.mp hlast
  obtain rfl : name = Sql.windowCountName.text := hname
  have hplaces : List.Forall₂ (· = ·) (p.outputs.map (·.ident)) (cells.map Prod.fst) := by
    rw [hcells, List.forall₂_same]
    exact fun _ _ => rfl
  rw [List.forall₂_map_left_iff, List.forall₂_map_right_iff] at hplaces
  exact ⟨cells, count, rfl, hcells, hplaces.imp fun _ _ => Eq.symm⟩

/-- The number of rows, and what else the statement has for itself, is left out. -/
theorem record_ofRow (hvalid : Registry.Valid { entries := p.outputs }) :
    p.record (Record.ofRow row) = p.shown row := by
  obtain ⟨cells, count, rfl, hcells, hplaces⟩ := exists_places hrow
  let keep (name : String) : Bool := name ∉ Sql.ownNames
  let kept : Members Json := (entriesToJson cells).filter fun e => keep e.1
  have hnodup : (cells.map Prod.fst).Nodup := hcells ▸ hvalid.idents_nodup
  have hkept : kept.keys.Sublist (cells.map Prod.fst) :=
    keys_entriesToJson cells ▸ List.filter_sublist.map Prod.fst
  have hidents : ∀ name ∈ kept.keys, Alias.ofName name = name := by
    intro name hname
    obtain ⟨output, houtput, rfl⟩ := List.mem_map.mp (hcells ▸ hkept.subset hname)
    rw [hvalid.made output houtput, Alias.ofName_ofName]
  have hzip : (p.outputs ++ []).zip (cells ++ [(Sql.windowCountName.text, count)]) =
      p.outputs.zip cells ++ [].zip [(Sql.windowCountName.text, count)] :=
    List.zip_append hplaces.length_eq
  rw [List.append_nil, List.zip_nil_left, List.append_nil] at hzip
  have hput : (Record.ofRow (cells ++ [(Sql.windowCountName.text, count)])).filter
      (fun e => keep e.1) = kept := by
    rw [Record.ofRow_concat hnodup, Members.filter_put (by decide)]
  rw [record_eq_renamed, hput, (renamed_eq_map hvalid hidents (hnodup.sublist hkept)).1, shown,
    hzip]
  exact renamed_places keep hplaces fun output houtput => displayName_of_mem hvalid houtput

theorem outputs_of_zip : (p.outputs.zip row).map Prod.fst = p.outputs := by
  have hlength := congrArg List.length hrow
  simp only [List.length_map, List.length_append, List.length_singleton] at hlength
  exact List.map_fst_zip (by omega)

/-- Nothing is left out if no output goes by a name of the statement's own. -/
theorem shown_eq_requested :
    p.shown row = p.requested row ↔ ∀ output ∈ p.outputs, output.ident ∉ Sql.ownNames := by
  have houtputs := outputs_of_zip hrow
  constructor
  · intro heq output houtput
    have hlength := congrArg List.length heq
    rw [shown, requested, List.length_map, List.length_map,
      List.length_filter_eq_length_iff] at hlength
    obtain ⟨e, he, rfl⟩ := List.mem_map.mp (houtputs ▸ houtput)
    exact of_decide_eq_true (hlength e he)
  · intro hall
    rw [shown, requested, List.filter_eq_self.mpr]
    intro e he
    exact decide_eq_true (hall e.1 (houtputs ▸ List.mem_map_of_mem he))

end

/-- Every row that the statement of a search for columns returns is shown with its outputs, each
under its name and with the cell in its place, and with nothing else. Only outputs under the names
of the statement's own columns are missing. The columns are told apart, unless an output goes by
the name of the number of rows. -/
theorem search_shows (h : (ofQuery w q).mode = .rows l)
    (hprojected : q.only ≠ [] ∨ q.minimal = true)
    (hst : Sql.Statement.ofSearchPlan w (ofQuery w q) = .ok st) :
    st.outputs = (ofQuery w q).outputs.map (·.ident) ++ [Sql.windowCountName.text] ∧
    (st.outputs.Nodup ↔
      ∀ output ∈ (ofQuery w q).outputs, output.ident ≠ Sql.windowCountName.text) ∧
    (∀ rows : List Row, (∀ row ∈ rows, row.map Prod.fst = st.outputs) →
      (ofQuery w q).outcome (Record.ofRows rows) = .rows ⟨rows.map (ofQuery w q).shown,
        firstCount Sql.windowCountName.text (Record.ofRows rows)⟩) ∧
    ∀ row : Row, row.map Prod.fst = st.outputs →
      ((ofQuery w q).requested row).keys = (ofQuery w q).outputs.map (·.name) ∧
      ((ofQuery w q).requested row).keys.Nodup ∧
      ((ofQuery w q).shown row = (ofQuery w q).requested row ↔
        ∀ output ∈ (ofQuery w q).outputs, output.ident ∉ Sql.ownNames) := by
  have hvalid := outputs_valid h
  have hcolumns := columns_of_statement h hprojected hst
  rw [hcolumns]
  refine ⟨rfl, ?_, fun rows hrows => ?_, fun row hrow => ?_⟩
  · rw [List.nodup_append_comm, List.singleton_append, List.nodup_cons,
      List.mem_map]
    have hnodup : ((ofQuery w q).outputs.map (·.ident)).Nodup := hvalid.idents_nodup
    simp only [hnodup, and_true, not_exists, not_and, ne_eq]
  · have hresults : rows.map (fun row => (ofQuery w q).record (Record.ofRow row)) =
        rows.map (ofQuery w q).shown :=
      List.map_congr_left fun row hrow => record_ofRow (hrows row hrow) hvalid
    rw [outcome, h, result, Record.ofRows, List.map_map, ← hresults]
    rfl
  · have hnames : ((ofQuery w q).requested row).keys = (ofQuery w q).outputs.map (·.name) := by
      have hzip := congrArg (List.map OutputColumn.name) (outputs_of_zip hrow)
      rw [List.map_map] at hzip
      rw [requested, Members.keys, List.map_map]
      exact hzip
    exact ⟨hnames, hnames ▸ hvalid.names_nodup, shown_eq_requested hrow⟩

/-- The costs with one of their tags. -/
def tagSearch : SearchQuery where
  filter := []
  filterOr := []
  sort := []
  page := none
  distinct := none
  select := []
  unwind := none
  minimal := false
  only := ["tags.env", "cost"]
  countOnly := false

def tagRow : Row := [("tags_env", .text "prod"), ("cost", .int 2), ("__total_count", .int 1)]

theorem search_shows_tag :
    ∃ l st, (ofQuery {} tagSearch).mode = .rows l ∧
      Sql.Statement.ofSearchPlan {} (ofQuery {} tagSearch) = .ok st ∧ st.outputs.Nodup ∧
      tagRow.map Prod.fst = st.outputs ∧
      (ofQuery {} tagSearch).outcome (Record.ofRows [tagRow]) =
        .rows ⟨[[("tags.env", .str "prod"), ("cost", .int 2)]], 1⟩ := by
  have h : (ofQuery {} tagSearch).mode = .rows _ := rfl
  have hprojected : tagSearch.only ≠ [] ∨ tagSearch.minimal = true := Or.inl (List.cons_ne_nil _ _)
  obtain ⟨hcolumns, hnodup, houtcome, hwhole⟩ := search_shows h hprojected rfl
  have houtputs : (ofQuery {} tagSearch).outputs =
      [⟨"tags_env", "tags.env"⟩, ⟨"cost", "cost"⟩] := rfl
  refine ⟨_, _, h, rfl, hnodup.mpr ?_, rfl, ?_⟩
  · rw [houtputs]
    decide
  · rw [houtcome [tagRow] (List.forall_mem_singleton.mpr rfl), List.map_singleton,
      (hwhole tagRow rfl).2.2.mpr]
    · rfl
    · rw [houtputs]
      decide

/-- A column under the name of the items of a list that is spread over rows. -/
def unwoundRequest : Request where
  only := ["_unwound", "cost"]

def unwoundSearch : SearchQuery := { tagSearch with only := ["_unwound", "cost"] }

/-- The column is selected and returned, but not shown. -/
theorem unwoundSearch_lost :
    ∃ l st row, SearchQuery.ofRequest unwoundRequest = .ok unwoundSearch ∧
      (ofQuery {} unwoundSearch).mode = .rows l ∧
      Sql.Statement.ofSearchPlan {} (ofQuery {} unwoundSearch) = .ok st ∧
      row.map Prod.fst = st.outputs ∧
      ⟨"_unwound", "_unwound"⟩ ∈ (ofQuery {} unwoundSearch).outputs ∧
      (ofQuery {} unwoundSearch).outcome (Record.ofRows [row]) =
        .rows ⟨[[("cost", .int 2)]], 1⟩ :=
  ⟨_, _, [("_unwound", .int 1), ("cost", .int 2), ("__total_count", .int 1)], rfl, rfl, rfl, rfl,
    List.mem_cons_self, rfl⟩

end SearchPlan

end CostQuery

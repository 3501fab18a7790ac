import CostQuery.Plan.Search
import CostQuery.Proofs.Filter.Lowered
import CostQuery.Proofs.Pipeline.Compile
import CostQuery.Proofs.Sql.Refusals
import CostQuery.Sql.Search

/-! Plans of checked queries become SQL, unless a stored name is no identifier. -/

namespace CostQuery

/-- The names that the warehouse gives to what every query may read. -/
def Warehouse.names (w : Warehouse) : List String :=
  (Sql.dotParts w.table.toList).map String.ofList ++ [w.billedAtColumn, w.partitionColumn]

def SearchQuery.columns (q : SearchQuery) : List Column :=
  conditionColumns (q.filter ++ q.filterOr) ++ (selectColumns q.select ++
    (q.sort.map (·.key) ++ (q.only ++ (q.distinct.toList ++ q.unwind.toList))).map Column.ofKey)

namespace Sql
variable {names : List String} {columns : List Column} {ident : String}

/-! The parts of an analysis. -/

/-- Every identifier in a facet is known. -/
structure KnowsFacet (names : List String) (f : Facet) : Prop where
  partitionKeys : ∀ ident ∈ f.partitionKeys, Known names ident
  facetKeys : ∀ ident ∈ f.facetKeys, Known names ident
  totals : ∀ t ∈ f.totals, Known names t.ident
  reads : ∀ t ∈ f.totals, ∀ ident ∈ t.total.reads, Known names ident
  arrays : ∀ ident ∈ f.arrays, Known names ident

theorem refuses_windowed (h : Known names ident) (f : Function) (partition : List Name) :
    RefusesOnly names (windowed f partition ident) :=
  (refuses_ofName h).bind_pure _

theorem refuses_totalExpr {t : Total} (h : ∀ ident ∈ t.reads, Known names ident)
    (partition : List Name) : RefusesOnly names (totalExpr partition t) := by
  cases t with
  | sum ident | min ident | max ident =>
    exact refuses_windowed (h ident (List.mem_singleton_self ident)) _ partition
  | ratio sum count =>
    have hsum := h sum List.mem_cons_self
    have hcount := h count (List.mem_cons_of_mem _ List.mem_cons_self)
    exact (refuses_windowed hcount _ partition).bind fun _ _ =>
      (refuses_windowed hsum _ partition).bind_pure _

theorem refuses_facetQuery {f : Facet} (h : KnowsFacet names f) :
    RefusesOnly names (facetQuery f) := by
  refine (RefusesOnly.mapM fun k hk => refuses_ofText (h.partitionKeys k hk)).bind
    fun partition _ => (RefusesOnly.mapM fun t ht => ?_).bind_pure _
  exact refuses_named (refuses_totalExpr (h.reads t ht) partition) (h.totals t ht)

theorem refuses_columnSlot (h : Known names ident) (name : String) :
    RefusesOnly names (columnSlot name ident) :=
  (refuses_ofName h).bind_pure _

theorem refuses_totalItem {t : FacetTotal} (h : Known names t.ident) :
    RefusesOnly names (totalItem t) :=
  (refuses_ofName h).bind fun _ _ => refuses_named (.ok _) h

theorem refuses_arrayItem {facetKeys : List String} (hkeys : ∀ k ∈ facetKeys, Known names k)
    (h : Known names ident) : RefusesOnly names (arrayItem facetKeys ident) :=
  (RefusesOnly.mapM fun k hk => refuses_columnSlot (hkeys k hk) k).bind fun _ _ =>
    (refuses_columnSlot h facetValue).bind fun _ _ => refuses_named (.ok _) h

theorem refuses_facetBody {f : Facet} (h : KnowsFacet names f) : RefusesOnly names (facetBody f) :=
  (RefusesOnly.mapM fun k hk => refuses_ofText (h.partitionKeys k hk)).bind fun _ _ =>
    (RefusesOnly.mapM fun t ht => refuses_totalItem (h.totals t ht)).bind fun _ _ =>
      (RefusesOnly.mapM fun k hk => refuses_arrayItem h.facetKeys (h.arrays k hk)).bind_pure _

theorem refuses_plainBody {p : AnalyzePlan} {idents : List String}
    (hp : p.stages.findSome? Stage.project? = some idents)
    (h : ∀ ident ∈ idents, Known names ident) : RefusesOnly names (plainBody p) := by
  simp only [plainBody, hp]
  exact (RefusesOnly.mapM fun k hk => refuses_ofText (h k hk)).bind_pure _

theorem refuses_paged {p : AnalyzePlan}
    (h : ∀ k ∈ (p.stages.findSome? Stage.sort?).getD [], Known names k.ident) (body : Select) :
    RefusesOnly names (paged p body) :=
  (RefusesOnly.mapM fun k hk => (refuses_ofName (h k hk)).bind_pure _).bind_pure _

theorem Reader.Knows.refuses_baseQuery {r : Reader} (h : r.Knows names) {p : AnalyzePlan}
    {g : Group} (hcolumns : KnowsAll names columns)
    (hfilter : ∀ f ∈ p.stages.findSome? Stage.match?, ∀ t ∈ f.tests, ∀ c ∈ t.column?,
      Known names c.root)
    (hkeys : ∀ k ∈ g.keys, k.source.Reads columns ∧ Known names k.ident)
    (hfields : ∀ f ∈ g.fields, f.Reads columns ∧ Known names f.ident) :
    RefusesOnly names (r.baseQuery p g) :=
  (refuses_tableName h.table).bind fun _ _ => h.refuses_explode.bind fun _ _ =>
    (RefusesOnly.option_mapM fun f hf => h.refuses_filter (hfilter f hf)).bind fun _ _ =>
      (RefusesOnly.mapM fun k hk =>
        h.refuses_keyItem hcolumns (hkeys k hk).1 (hkeys k hk).2).bind fun _ _ =>
        (RefusesOnly.mapM fun f hf =>
          h.refuses_fieldItem hcolumns (hfields f hf).1 (hfields f hf).2).bind_pure _

theorem refuses_analysis {r : Reader} {p : AnalyzePlan} {g : Group} (hg : p.group? = some g)
    (hbase : RefusesOnly names (r.baseQuery p g)) (hfacet : ∀ f ∈ p.facet?, KnowsFacet names f)
    {idents : List String} (hproject : p.stages.findSome? Stage.project? = some idents)
    (hidents : ∀ ident ∈ idents, Known names ident)
    (horder : ∀ k ∈ (p.stages.findSome? Stage.sort?).getD [], Known names k.ident) :
    RefusesOnly names (r.analysis p) := by
  rw [Reader.analysis, hg]
  refine hbase.bind fun base _ => ?_
  split
  · next f hf =>
    exact (refuses_facetQuery (hfacet f hf)).bind fun _ _ =>
      (refuses_facetBody (hfacet f hf)).bind fun _ _ => (refuses_paged horder _).bind_pure _
  · exact (refuses_plainBody hproject hidents).bind fun _ _ =>
      (refuses_paged horder _).bind_pure _

/-! The parts of a search. -/

/-- A computed column reads these columns, and has operands where it needs them. -/
structure ListingReads (columns : List Column) (l : Listing) : Prop where
  projection : ∀ cs, l.projection = .columns cs → cs ⊆ columns
  computed : ∀ c ∈ l.computed, c.2.Filled ∧ c.2.columns ⊆ columns
  sort : ∀ s ∈ l.sort, s.1 ∈ columns

namespace Reader
variable {r : Reader}

theorem Knows.refuses_searchFilter (h : r.Knows names) {p : SearchPlan}
    (hp : ∀ f ∈ p.predicate, ∀ t ∈ f.tests, ∀ c ∈ t.column?, Known names c.root) :
    RefusesOnly names (r.searchFilter p) := by
  refine (RefusesOnly.option_mapM fun f hf => h.refuses_filter (hp f hf)).bind fun test _ => ?_
  have hrecent : RefusesOnly names (r.recentMonths.map some) :=
    ((refuses_ofName h.partition).bind_pure _).map some
  split
  · cases test <;> exact .ok _
  · refine hrecent.bind fun window _ => ?_
    cases test <;> cases window <;> exact .ok _

theorem Knows.refuses_projected (h : r.Knows names) {projection : Projection}
    (hp : ∀ cs, projection = .columns cs → ∀ c ∈ cs, Known names c.root) :
    RefusesOnly names (r.projected projection) := by
  cases projection with
  | all => exact .ok _
  | columns cs =>
    exact .mapM fun c hc => refuses_named (h.refuses_read (hp cs rfl c hc) true)
      (Or.inl (isName_ofName _))

theorem Knows.refuses_listed (h : r.Knows names) (hcolumns : KnowsAll names columns)
    {l : Listing} (hl : ListingReads columns l) (rows : Select) :
    RefusesOnly names (r.listed l rows) :=
  (h.refuses_projected fun cs hcs c hc => hcolumns c (hl.projection cs hcs hc)).bind fun _ _ =>
    (RefusesOnly.mapM fun c hc => refuses_named (h.refuses_computed (hl.computed c hc).1
      fun column hmem => hcolumns column ((hl.computed c hc).2 hmem))
        (Or.inl (isName_ofName _))).bind fun _ _ =>
      (RefusesOnly.mapM fun s hs =>
        (h.refuses_read (hcolumns s.1 (hl.sort s hs)) true).bind_pure _).bind_pure _

theorem Knows.refuses_search (h : r.Knows names) {p : SearchPlan}
    (hcolumns : KnowsAll names columns)
    (hp : ∀ f ∈ p.predicate, ∀ t ∈ f.tests, ∀ c ∈ t.column?, Known names c.root)
    (hdistinct : ∀ c, p.mode = .distinct c → c ∈ columns)
    (hrows : ∀ l, p.mode = .rows l → ListingReads columns l) :
    RefusesOnly names (r.search p) := by
  refine (refuses_tableName h.table).bind fun table _ => h.refuses_explode.bind fun explode _ =>
    (h.refuses_searchFilter hp).bind fun filter _ => ?_
  cases hmode : p.mode with
  | count => exact .ok _
  | distinct c => exact (h.refuses_read (hcolumns c (hdistinct c hmode)) true).bind_pure _
  | rows l => exact (h.refuses_listed hcolumns (hrows l hmode) _).bind_pure _

end Reader

/-! Whole queries. -/

theorem known_root {w : Warehouse} {c : Column} (hc : c ∈ columns) :
    Known (w.names ++ columns.map (·.root)) c.root :=
  Or.inr (List.mem_append_right _ (List.mem_map_of_mem hc))

theorem knows_names {w : Warehouse} {unwind : Option Column} (h : ∀ c ∈ unwind, c ∈ columns) :
    (Reader.mk w unwind).Knows (w.names ++ columns.map (·.root)) where
  table _ hpart := Or.inr (List.mem_append_left _ (List.mem_append_left _
    (List.mem_map_of_mem hpart)))
  billedAt := Or.inr (List.mem_append_left _ (List.mem_append_right _ List.mem_cons_self))
  partition := Or.inr (List.mem_append_left _ (List.mem_append_right _
    (List.mem_cons_of_mem _ List.mem_cons_self)))
  unwind c hc := known_root (h c hc)

/-- The columns of the date window are identifiers. -/
theorem isName_precision (p : Precision) :
    isName (Column.ofKey p.column).root.toList = true := by
  cases p <;> decide

end Sql

open Sql

theorem Predicate.known_ofFilters {filter filterOr : List Condition} {p t : Predicate} {c : Column}
    {names : List String} (hp : ofFilters? filter filterOr = some p) (ht : t ∈ p.tests)
    (hc : t.column? = some c) (h : KnowsAll names (conditionColumns (filter ++ filterOr))) :
    Known names c.root := by
  obtain ⟨cond, hcond, rfl⟩ := condition_of_ofFilters hp ht hc
  exact h _ (List.mem_map_of_mem hcond)

namespace AnalyzeQuery
variable {q : AnalyzeQuery} {names : List String} {ident : String}

theorem known_predicate {p : Predicate} (hp : q.predicate? = some p)
    (h : KnowsAll names (conditionColumns (q.filter ++ q.filterOr))) :
    ∀ t ∈ p.tests, ∀ c ∈ t.column?, Known names c.root := by
  intro t ht c hc
  obtain ⟨part, hpart, ht⟩ := Predicate.mem_tests_all hp ht
  rcases List.mem_append.mp hpart with hwindow | hfilter
  · refine Or.inl ?_
    simp only [windowTests, List.mem_cons, List.not_mem_nil, or_false] at hwindow
    rcases hwindow with rfl | rfl <;>
    · obtain rfl := List.mem_singleton.mp ht
      obtain rfl := Option.some.inj hc
      exact isName_precision _
  · exact Predicate.known_ofFilters (Option.mem_toList.mp hfilter) ht hc h

theorem known_registered (h : ident ∈ q.draft.registry.idents) : Known names ident := by
  obtain ⟨e, he, rfl⟩ := List.mem_map.mp h
  exact Or.inl (q.draft_scoped.registry_valid.made e he ▸ isName_ofName e.name)

theorem known_column (h : ident ∈ q.draft.columns) : Known names ident :=
  known_registered (q.draft_scoped.registered h)

theorem known_field (h : ident ∈ q.draft.fieldIdents) : Known names ident :=
  known_column (List.mem_append_right _ (List.mem_append_left _ h))

theorem known_visible (h : ident ∈ q.draft.visible q.isFaceted) : Known names ident :=
  known_registered (q.draft_scoped.visible_registered h)

theorem knows_facet : KnowsFacet names q.draft.facet where
  partitionKeys _ h := known_column (List.mem_append_left _ (List.mem_of_mem_filter h))
  facetKeys _ h := known_column (List.mem_append_left _ (q.draft_scoped.facetKeys_subset h))
  totals _ h := known_column (List.mem_append_right _ (List.mem_append_right _
    (List.mem_map_of_mem h)))
  reads t ht _ h := known_field (q.draft_scoped.totals_read t ht h)
  arrays _ h := known_field (q.draft_scoped.planned_subset h)

variable {limits : RangeLimits} {r : Request} {plan : AnalyzePlan}

theorem refuses_sql (hq : ofRequest limits r = .ok q) (h : AnalyzePlan.ofQuery q = .ok plan)
    (w : Warehouse) :
    RefusesOnly (w.names ++ q.columns.map (·.root)) (Statement.ofAnalyzePlan w plan) := by
  obtain ⟨-, rfl⟩ := AnalyzePlan.ofQuery_ok h
  have hreads := draft_reads hq
  have hcolumns : KnowsAll (w.names ++ q.columns.map (·.root)) q.columns := fun _ => known_root
  have hconditions : conditionColumns (q.filter ++ q.filterOr) ⊆ q.columns := by
    intro c hc
    simp only [columns, List.mem_append, hc, true_or, or_true]
  have hknows : (Reader.mk w (q.unwind.map Column.ofKey)).Knows
      (w.names ++ q.columns.map (·.root)) := by
    refine knows_names fun c hc => ?_
    simp only [columns, List.mem_append, Option.mem_toList, Option.mem_def.mp hc, or_true]
  rw [Statement.ofAnalyzePlan, q.unwind_stages]
  refine refuses_analysis (q.group_stages q.draft) ?_ ?_ (q.project_stages q.draft)
    (fun ident => known_visible) fun k hk => ?_
  · refine hknows.refuses_baseQuery hcolumns (fun p hp => ?_)
      (fun k hk => ⟨hreads.keys k hk, known_column (List.mem_append_left _
        (List.mem_map_of_mem hk))⟩)
      fun f hf => ⟨hreads.fields f hf, known_field (List.mem_map_of_mem hf)⟩
    rw [q.match_stages] at hp
    exact known_predicate hp fun c hc => hcolumns c (hconditions hc)
  · intro f hf
    rw [AnalyzePlan.facet?, q.facet_stages] at hf
    split at hf
    · obtain rfl := Option.some.inj hf
      exact knows_facet
    · cases hf
  · rw [q.sort_stages] at hk
    exact known_visible (q.draft_scoped.order_visible
      (fun hnone => (q.draftFields_totalOf hnone _).trans q.draftKeys_totalOf) hk)

end AnalyzeQuery

theorem Registry.keepNew_subset {α : Type} (name : α → String) (r : Registry) (as : List α) :
    (r.keepNew name as).1 ⊆ as := by
  induction as generalizing r with
  | nil => exact List.nil_subset _
  | cons a rest ih =>
    have hrest := List.subset_cons_of_subset a (ih (r.register (name a)).2)
    simp only [keepNew]
    split
    · exact List.cons_subset.mpr ⟨List.mem_cons_self, hrest⟩
    · exact hrest

namespace SearchQuery
variable {q : SearchQuery} {r : Request}

/-- The columns that a search may read, the minimal ones among them. -/
def allColumns (q : SearchQuery) (w : Warehouse) : List Column :=
  q.columns ++ w.minimalFields.map Column.ofKey

theorem projectedKeys_subset {w : Warehouse} {keys : List String}
    (h : q.projectedKeys? w = some keys) : keys.map Column.ofKey ⊆ q.allColumns w := by
  rw [projectedKeys?] at h
  split at h
  · obtain rfl := Option.some.inj h
    intro c hc
    simp only [allColumns, columns, List.map_append, List.mem_append, hc, true_or, or_true]
  · split at h
    · obtain rfl := Option.some.inj h
      exact List.subset_append_right _ _
    · cases h

theorem listing_reads (hq : ofRequest r = .ok q) (w : Warehouse) :
    ListingReads (q.allColumns w) (q.listing w).1 where
  projection cs hcs := by
    simp only [listing] at hcs
    cases hkeys : q.projectedKeys? w with
    | none => simp [hkeys] at hcs
    | some keys =>
      simp only [hkeys, Projection.columns.injEq] at hcs
      exact hcs ▸ List.Subset.trans (Registry.keepNew_subset _ _ _) (projectedKeys_subset hkeys)
  computed c hc := by
    obtain ⟨s, hs, rfl⟩ := List.mem_map.mp hc
    have hmem := Registry.keepNew_subset _ _ _ hs
    refine ⟨filled_of_ofRequest hq hmem, fun column hcolumn => ?_⟩
    have hselect : column ∈ selectColumns q.select := List.mem_flatMap.mpr ⟨s, hmem, hcolumn⟩
    simp only [allColumns, columns, List.mem_append, hselect, true_or, or_true]
  sort s hs := by
    obtain ⟨key, hkey, rfl⟩ := List.mem_map.mp hs
    have hmem : key.key ∈ q.sort.map (·.key) := List.mem_map_of_mem hkey
    simp only [allColumns, columns, List.mem_append, List.map_append,
      List.mem_map_of_mem (f := Column.ofKey) hmem, true_or, or_true]

theorem refuses_sql (hq : ofRequest r = .ok q) (w : Warehouse) :
    RefusesOnly (w.names ++ (q.allColumns w).map (·.root))
      (Statement.ofSearchPlan w (SearchPlan.ofQuery w q)) := by
  have hcolumns : KnowsAll (w.names ++ (q.allColumns w).map (·.root)) (q.allColumns w) :=
    fun _ => known_root
  refine (knows_names fun c hc => ?_).refuses_search hcolumns (fun p hp t ht c hc => ?_)
    (fun c hc => ?_) fun l hl => ?_
  · obtain ⟨key, hkey, rfl⟩ := Option.map_eq_some_iff.mp hc
    simp [allColumns, columns, hkey]
  · exact Predicate.known_ofFilters hp ht hc fun c hc =>
      hcolumns c (List.mem_append_left _ (List.mem_append_left _ hc))
  · simp only [SearchPlan.ofQuery, mode] at hc
    split at hc
    · cases hc
    · split at hc
      · next key hkey =>
        obtain rfl := SearchMode.distinct.inj hc
        simp [allColumns, columns, hkey]
      · cases hc
  · simp only [SearchPlan.ofQuery, mode] at hl
    split at hl
    · cases hl
    · split at hl
      · cases hl
      · exact SearchMode.rows.inj hl ▸ listing_reads hq w

end SearchQuery

/-- Plans of checked queries become pipelines. They become SQL unless a stored name is no
identifier: a part of the table, a column of the warehouse, or the root of a column that the query
reads. The names of outputs are never refused. -/
theorem compile_refusals (w : Warehouse) :
    (∀ limits r q plan, AnalyzeQuery.ofRequest limits r = .ok q →
      AnalyzePlan.ofQuery q = .ok plan →
      (∃ ss, Pipeline.ofPlan w plan = .ok ss) ∧
        RefusesOnly (w.names ++ q.columns.map (·.root)) (Statement.ofAnalyzePlan w plan)) ∧
    (∀ r q, SearchQuery.ofRequest r = .ok q →
      RefusesOnly (w.names ++ (q.columns ++ w.minimalFields.map Column.ofKey).map (·.root))
        (Statement.ofSearchPlan w (SearchPlan.ofQuery w q))) ∧
    ∀ name, ∃ n, Name.ofText (Alias.ofName name) = .ok n := by
  refine ⟨fun limits r q plan hq h => ?_, fun r q hq => SearchQuery.refuses_sql hq w,
    fun name => ⟨⟨_, isName_ofName name⟩, dif_pos (isName_ofName name)⟩⟩
  exact ⟨AnalyzeQuery.exists_pipeline hq h w, AnalyzeQuery.refuses_sql hq h w⟩

/-- A stored column whose name is no identifier, to be grouped by or to be listed. -/
def dashedRequest : Request where
  granularity := some "DAILY"
  start := some "2024-02-01"
  finish := some "2024-02-29"
  groupBy := [.str "cost-id"]
  only := ["cost-id"]

def dashedQuery : AnalyzeQuery :=
  { costsByRegion with
    granularity := .daily
    groupBy := [⟨"cost-id", "cost-id"⟩]
    fields := []
    fieldGroup := []
    sort := []
    page := none }

def dashedSearch : SearchQuery where
  filter := []
  filterOr := []
  sort := []
  page := none
  distinct := none
  select := []
  unwind := none
  minimal := false
  only := ["cost-id"]
  countOnly := false

theorem compile_refusals_dashed :
    ∃ plan ss, AnalyzePlan.ofQuery dashedQuery = .ok plan ∧ Pipeline.ofPlan {} plan = .ok ss ∧
      (∃ name ∈ Warehouse.names {} ++ dashedQuery.columns.map (·.root),
        Statement.ofAnalyzePlan {} plan = .error (.invalidIdentifier name)) ∧
      ∃ name ∈ Warehouse.names {} ++ (dashedSearch.allColumns {}).map (·.root),
        Statement.ofSearchPlan {} (SearchPlan.ofQuery {} dashedSearch) =
          .error (.invalidIdentifier name) := by
  have hq : AnalyzeQuery.ofRequest {} dashedRequest = .ok dashedQuery := rfl
  have hplan : AnalyzePlan.ofQuery dashedQuery = .ok _ := rfl
  have hsearch : SearchQuery.ofRequest dashedRequest = .ok dashedSearch := rfl
  obtain ⟨⟨ss, hss⟩, hanalyze⟩ := (compile_refusals {}).1 {} dashedRequest _ _ hq hplan
  have hlist := (compile_refusals {}).2.1 dashedRequest _ hsearch
  obtain ⟨name, hname, -, heq⟩ := hanalyze (.invalidIdentifier "cost-id") rfl
  obtain ⟨name', hname', -, heq'⟩ := hlist (.invalidIdentifier "cost-id") rfl
  obtain rfl := CompileFault.invalidIdentifier.inj heq
  obtain rfl := CompileFault.invalidIdentifier.inj heq'
  exact ⟨_, ss, hplan, hss, ⟨_, hname, rfl⟩, _, hname', rfl⟩

end CostQuery

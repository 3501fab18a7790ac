import CostQuery.Proofs.Plan.Draft
import CostQuery.Proofs.Sql.Windows

/-! The columns that statements read and give, from one select to the next. -/

namespace CostQuery.Sql

/-- An item without a name goes by its column; a star is every column there is before it. -/
def Item.outputs (before : List String) (item : Item) : List String :=
  match item.name, item.expr with
  | some n, _ => [n.text]
  | none, .column n => [n.text]
  | none, .star => before
  | none, _ => []

def Grouping.reads : Grouping → List String
  | .keys names => names.map (·.text)
  | .none | .all => []

namespace Select

def outputs (before : List String) (s : Select) : List String :=
  s.items.flatMap (·.outputs before)

def reads (s : Select) : List String :=
  s.items.flatMap (·.expr.reads) ++ s.explode.toList.flatMap Expr.reads ++
    s.filter.toList.flatMap Expr.reads ++ s.grouping.reads ++ s.order.flatMap (·.expr.reads)

def windows (s : Select) : List (List String) := s.items.flatMap (·.expr.windows)

/-- It reads columns of the subquery before it. The first select reads the table. -/
def ReadsFrom (before : Option (Name × List String)) (s : Select) : Prop :=
  match before with
  | none => ∃ parts, s.source = .table parts
  | some (name, columns) => s.source = .subquery name ∧ s.reads ⊆ columns

/-- A subquery, with its columns. -/
def produced (before : Option (Name × List String)) (subquery : Name × Select) :
    Option (Name × List String) :=
  some (subquery.1, subquery.2.outputs (before.elim [] Prod.snd))

end Select

namespace Statement

/-- Every select reads from the one before it. -/
def ChainedFrom (before : Option (Name × List String)) : List (Name × Select) → Select → Prop
  | [], body => body.ReadsFrom before
  | subquery :: rest, body =>
    subquery.2.ReadsFrom before ∧ ChainedFrom (Select.produced before subquery) rest body

def Chained (st : Statement) : Prop := ChainedFrom none st.subqueries st.body

def outputs (st : Statement) : List String :=
  st.body.outputs ((st.subqueries.foldl Select.produced none).elim [] Prod.snd)

def windows (st : Statement) : List (List String) :=
  st.subqueries.flatMap (·.2.windows) ++ st.body.windows

end Statement

variable {r : Reader} {e : Expr} {ident : String} {item : Item} {before names : List String}

theorem ofText_ok {name : String} {n : Name} (h : Name.ofText name = .ok n) : n.text = name := by
  rw [Name.ofText] at h
  split at h
  · exact (Except.ok.inj h) ▸ rfl
  · cases h

theorem texts_of_mapM {names : List String} {ns : List Name} (h : names.mapM Name.ofText = .ok ns) :
    ns.map (·.text) = names := by
  simpa using map_of_mapM_ok (g := id) h fun _ _ => ofText_ok

/-- A named item gives the column of its name. -/
theorem named_ok (h : named e ident = .ok item) :
    item.expr = e ∧ ∀ before, item.outputs before = [ident] := by
  obtain ⟨n, hn, rfl⟩ := bind_pure_ok.mp h
  exact ⟨rfl, fun _ => congrArg ([·]) (ofText_ok hn)⟩

theorem outputs_of_mapM {α : Type} {as : List α} {items : List Item} {f : α → Compiled Item}
    (name : α → String) (h : as.mapM f = .ok items)
    (hf : ∀ a item, f a = .ok item → item.outputs before = [name a]) :
    items.flatMap (·.outputs before) = as.map name := by
  have hall := mapM_ok h
  clear h
  induction hall with
  | nil => rfl
  | cons ha _ ih => rw [List.flatMap_cons, hf _ _ ha, ih, List.map_cons, List.singleton_append]

/-! The selects of an analysis, one by one. -/

variable {p : AnalyzePlan} {g : Group} {f : Facet} {s body : Select} {partition : List Name}
  {column : String}

/-- The grouping query reads the table, and gives the keys and the fields. -/
theorem baseQuery_columns (h : r.baseQuery p g = .ok s) :
    (∃ parts, s.source = .table parts) ∧ s.windows = [] ∧
      ∀ before, s.outputs before = g.keys.map (·.ident) ++ g.fields.map (·.ident) := by
  simp only [Reader.baseQuery, bind_ok, pure_ok] at h
  obtain ⟨table, -, explode, -, filter, -, keys, hkeys, fields, hfields, rfl⟩ := h
  refine ⟨⟨table, rfl⟩, ?_, fun before => ?_⟩
  · rw [Select.windows, List.flatMap_append, List.append_eq_nil_iff, List.flatMap_eq_nil_iff,
      List.flatMap_eq_nil_iff]
    constructor
    · intro item hitem
      obtain ⟨k, -, h⟩ := exists_of_forall₂ (mapM_ok hkeys).flip hitem
      obtain ⟨e, he, hnamed⟩ := bind_ok.mp h
      rw [(named_ok hnamed).1, windows_keyExpr he]
    · intro item hitem
      obtain ⟨f, -, h⟩ := exists_of_forall₂ (mapM_ok hfields).flip hitem
      obtain ⟨e, he, hnamed⟩ := bind_ok.mp h
      rw [(named_ok hnamed).1, windows_aggregateExpr he]
  · rw [Select.outputs, List.flatMap_append]
    congr 1
    · refine outputs_of_mapM _ hkeys fun k item h => ?_
      obtain ⟨e, -, hnamed⟩ := bind_ok.mp h
      exact (named_ok hnamed).2 before
    · refine outputs_of_mapM _ hfields fun f item h => ?_
      obtain ⟨e, -, hnamed⟩ := bind_ok.mp h
      exact (named_ok hnamed).2 before

theorem windowed_columns {function : Function} (h : windowed function partition ident = .ok e) :
    e.reads = partition.map (·.text) ++ [ident] ∧ e.windows = [partition.map (·.text)] := by
  obtain ⟨column, hn, rfl⟩ := bind_pure_ok.mp h
  obtain ⟨n, rfl, rfl⟩ := Expr.ofName_ok hn
  simp

/-- A total reads its columns and the partition of its windows. -/
theorem totalExpr_columns {t : Total} (h : totalExpr partition t = .ok e) :
    (∀ column ∈ e.reads, column ∈ partition.map (·.text) ∨ column ∈ t.reads) ∧
      ∀ window ∈ e.windows, window = partition.map (·.text) := by
  cases t with
  | sum ident | min ident | max ident =>
    obtain ⟨hreads, hwindows⟩ := windowed_columns h
    simp [hreads, hwindows, Total.reads]
  | ratio total count =>
    simp only [totalExpr, bind_ok, pure_ok] at h
    obtain ⟨counts, hcounts, sums, hsums, rfl⟩ := h
    obtain ⟨hreads, hwindows⟩ := windowed_columns hcounts
    obtain ⟨hreads', hwindows'⟩ := windowed_columns hsums
    simp only [Expr.reads_ifThenElse, Expr.reads_compare, Expr.reads_arithmetic, Expr.reads_int,
      Expr.windows_ifThenElse, Expr.windows_compare, Expr.windows_arithmetic, Expr.windows_int,
      hreads, hwindows, hreads', hwindows', Total.reads, List.append_nil, List.mem_append,
      List.mem_cons, List.not_mem_nil, or_false]
    tauto

/-- The totals query gives the totals beside every column before it. Its windows are over the
partition. -/
theorem facetQuery_columns (h : facetQuery f = .ok s) :
    s.source = .subquery baseName ∧
      (∀ before, s.outputs before = before ++ f.totals.map (·.ident)) ∧
      (∀ column ∈ s.reads, column ∈ f.partitionKeys ∨ ∃ t ∈ f.totals, column ∈ t.total.reads) ∧
      ∀ window ∈ s.windows, window = f.partitionKeys := by
  simp only [facetQuery, bind_ok, pure_ok] at h
  obtain ⟨partition, hpartition, items, hitems, rfl⟩ := h
  have hkeys := texts_of_mapM hpartition
  have hitem : ∀ item ∈ items, ∃ t ∈ f.totals, totalExpr partition t.total = .ok item.expr := by
    intro item hmem
    obtain ⟨t, ht, h⟩ := exists_of_forall₂ (mapM_ok hitems).flip hmem
    obtain ⟨e, he, hnamed⟩ := bind_ok.mp h
    exact ⟨t, ht, (named_ok hnamed).1 ▸ he⟩
  refine ⟨rfl, fun before => ?_, fun column hcolumn => ?_, fun window hwindow => ?_⟩
  · rw [Select.outputs, List.flatMap_cons]
    refine congrArg (before ++ ·) (outputs_of_mapM _ hitems fun t item h => ?_)
    obtain ⟨e, -, hnamed⟩ := bind_ok.mp h
    exact (named_ok hnamed).2 before
  · simp only [Select.reads, Grouping.reads, bare, List.flatMap_cons, Expr.reads_star,
      List.nil_append, Option.toList_none, List.flatMap_nil, List.append_nil,
      List.mem_flatMap] at hcolumn
    obtain ⟨item, hmem, hcolumn⟩ := hcolumn
    obtain ⟨t, ht, he⟩ := hitem item hmem
    exact ((totalExpr_columns he).1 column hcolumn).imp (hkeys ▸ ·) fun hread => ⟨t, ht, hread⟩
  · simp only [Select.windows, bare, List.flatMap_cons, Expr.windows_star, List.nil_append,
      List.mem_flatMap] at hwindow
    obtain ⟨item, hmem, hwindow⟩ := hwindow
    obtain ⟨t, ht, he⟩ := hitem item hmem
    exact ((totalExpr_columns he).2 window hwindow).trans hkeys

theorem columnSlot_columns {name : String} {slot : String × Expr}
    (h : columnSlot name ident = .ok slot) : slot.2.reads = [ident] ∧ slot.2.windows = [] := by
  obtain ⟨column, hn, rfl⟩ := bind_pure_ok.mp h
  obtain ⟨n, rfl, rfl⟩ := Expr.ofName_ok hn
  exact ⟨rfl, rfl⟩

theorem totalItem_columns {t : FacetTotal} (h : totalItem t = .ok item) :
    item.expr.reads = [t.ident] ∧ item.expr.windows = [] ∧
      ∀ before, item.outputs before = [t.ident] := by
  obtain ⟨column, hn, hnamed⟩ := bind_ok.mp h
  obtain ⟨n, hident, rfl⟩ := Expr.ofName_ok hn
  obtain ⟨hexpr, houtputs⟩ := named_ok hnamed
  exact ⟨by simp [hexpr, hident], by simp [hexpr], houtputs⟩

theorem arrayItem_columns {facetKeys : List String} (h : arrayItem facetKeys ident = .ok item) :
    item.expr.reads = facetKeys ++ [ident] ∧ item.expr.windows = [] ∧
      ∀ before, item.outputs before = [ident] := by
  simp only [arrayItem, bind_ok] at h
  obtain ⟨keys, hkeys, value, hvalue, hnamed⟩ := h
  obtain ⟨hexpr, houtputs⟩ := named_ok hnamed
  obtain ⟨hreads, hwindows⟩ := columnSlot_columns hvalue
  have hkeyReads : keys.flatMap (·.2.reads) = facetKeys := by
    have hall := mapM_ok hkeys
    clear hkeys hnamed hexpr
    induction hall with
    | nil => rfl
    | cons hk _ ih =>
      rw [List.flatMap_cons, ih, (columnSlot_columns hk).1, List.singleton_append]
  have hkeyWindows : keys.flatMap (·.2.windows) = [] := by
    rw [List.flatMap_eq_nil_iff]
    intro slot hslot
    obtain ⟨k, -, hk⟩ := exists_of_forall₂ (mapM_ok hkeys).flip hslot
    exact (columnSlot_columns hk).2
  exact ⟨by simp [hexpr, hreads, hkeyReads], by simp [hexpr, hwindows, hkeyWindows], houtputs⟩

theorem outputs_bare (names : List Name) :
    (names.map fun n => bare (.column n)).flatMap (·.outputs before) = names.map (·.text) := by
  simp [List.flatMap_map, Item.outputs, bare, ← List.map_eq_flatMap]

theorem reads_bare (names : List Name) :
    (names.map fun n => bare (.column n)).flatMap (·.expr.reads) = names.map (·.text) := by
  simp [List.flatMap_map, bare, ← List.map_eq_flatMap]

theorem windows_bare (names : List Name) :
    (names.map fun n => bare (.column n)).flatMap (·.expr.windows) = [] := by
  simp [List.flatMap_map, bare]

/-- Facets are grouped by the partition, and give it with the totals and the arrays. -/
theorem facetBody_columns (h : facetBody f = .ok s) :
    s.source = .subquery facetName ∧ s.windows = [] ∧ s.order = [] ∧
      (∃ names, s.grouping = .keys names ∧ names.map (·.text) = f.partitionKeys) ∧
      (∀ before, s.outputs before = f.partitionKeys ++ f.totals.map (·.ident) ++ f.arrays) ∧
      ∀ column ∈ s.reads,
        column ∈ f.partitionKeys ++ f.totals.map (·.ident) ++ f.arrays ++ f.facetKeys := by
  simp only [facetBody, bind_ok, pure_ok] at h
  obtain ⟨partition, hpartition, totals, htotals, arrays, harrays, rfl⟩ := h
  have hkeys := texts_of_mapM hpartition
  have htotal : ∀ item ∈ totals, ∃ t ∈ f.totals, totalItem t = .ok item :=
    fun _ => exists_of_forall₂ (mapM_ok htotals).flip
  have harray : ∀ item ∈ arrays, ∃ ident ∈ f.arrays, arrayItem f.facetKeys ident = .ok item :=
    fun _ => exists_of_forall₂ (mapM_ok harrays).flip
  refine ⟨rfl, ?_, rfl, ⟨partition, rfl, hkeys⟩, fun before => ?_, fun column hcolumn => ?_⟩
  · rw [Select.windows, List.flatMap_append, List.flatMap_append, windows_bare, List.nil_append,
      List.append_eq_nil_iff, List.flatMap_eq_nil_iff, List.flatMap_eq_nil_iff]
    constructor
    · intro item hmem
      obtain ⟨t, -, h⟩ := htotal item hmem
      exact (totalItem_columns h).2.1
    · intro item hmem
      obtain ⟨ident, -, h⟩ := harray item hmem
      exact (arrayItem_columns h).2.1
  · rw [Select.outputs, List.flatMap_append, List.flatMap_append, outputs_bare, hkeys,
      outputs_of_mapM _ htotals fun t item h => (totalItem_columns h).2.2 before,
      outputs_of_mapM id harrays fun ident item h => (arrayItem_columns h).2.2 before,
      List.map_id]
  · simp only [Select.reads, Grouping.reads, List.flatMap_append, reads_bare, hkeys,
      Option.toList_none, List.flatMap_nil, List.append_nil, List.mem_append,
      List.mem_flatMap] at hcolumn ⊢
    rcases hcolumn with ((hkey | ⟨item, hmem, hread⟩) | ⟨item, hmem, hread⟩) | hkey
    · exact .inl (.inl (.inl hkey))
    · obtain ⟨t, ht, h⟩ := htotal item hmem
      rw [(totalItem_columns h).1, List.mem_singleton] at hread
      exact .inl (.inl (.inr (hread ▸ List.mem_map_of_mem ht)))
    · obtain ⟨ident, hident, h⟩ := harray item hmem
      rw [(arrayItem_columns h).1, List.mem_append, List.mem_singleton] at hread
      exact hread.elim .inr fun heq => .inl (.inr (heq ▸ hident))
    · exact .inl (.inl (.inl hkey))

/-- Without facets the columns shown are those of the groups. -/
theorem plainBody_columns (h : plainBody p = .ok s) :
    ∃ shown, p.stages.findSome? Stage.project? = some shown ∧ s.source = .subquery baseName ∧
      s.windows = [] ∧ s.order = [] ∧ (∀ before, s.outputs before = shown) ∧
      s.reads = shown := by
  rw [plainBody] at h
  split at h
  · cases h
  · next shown hshown =>
    obtain ⟨names, hnames, rfl⟩ := bind_pure_ok.mp h
    have htexts := texts_of_mapM hnames
    refine ⟨shown, hshown, rfl, windows_bare names, rfl, fun before => ?_, ?_⟩
    · rw [Select.outputs, outputs_bare, htexts]
    · simp [Select.reads, Grouping.reads, reads_bare, htexts]

/-- Ordering reads the columns of the order, and changes nothing else. -/
theorem paged_columns (h : paged p body = .ok s) (hbody : body.order = []) :
    s.source = body.source ∧ s.windows = body.windows ∧ s.grouping = body.grouping ∧
      (∀ before, s.outputs before = body.outputs before) ∧
      ∀ column ∈ s.reads, column ∈ body.reads ∨
        ∃ k ∈ (p.stages.findSome? Stage.sort?).getD [], column = k.ident := by
  obtain ⟨order, horder, rfl⟩ := bind_pure_ok.mp h
  refine ⟨rfl, rfl, rfl, fun _ => rfl, fun column hcolumn => ?_⟩
  simp only [Select.reads, hbody, List.flatMap_nil, List.append_nil, List.mem_append] at hcolumn ⊢
  refine hcolumn.imp_right fun hread => ?_
  obtain ⟨item, hmem, hread⟩ := List.mem_flatMap.mp hread
  obtain ⟨k, hk, hitem⟩ := exists_of_forall₂ (mapM_ok horder).flip hmem
  obtain ⟨e, he, rfl⟩ := bind_pure_ok.mp hitem
  obtain ⟨n, hn, rfl⟩ := Expr.ofName_ok he
  exact ⟨k, hk, (List.mem_singleton.mp hread).trans hn⟩

/-- What a plan must be for its statement to read columns that are there. -/
structure Placed (g : Group) (facet? : Option Facet) (shown : List String)
    (order : List OrderKey) : Prop where
  ordered : ∀ k ∈ order, k.ident ∈ shown
  plain : facet? = none → shown ⊆ g.keys.map (·.ident) ++ g.fields.map (·.ident)
  faceted : ∀ f ∈ facet?, shown = f.partitionKeys ++ f.totals.map (·.ident) ++ f.arrays
  keys : ∀ f ∈ facet?, f.partitionKeys ++ f.facetKeys ⊆ g.keys.map (·.ident)
  arrays : ∀ f ∈ facet?, f.arrays ⊆ g.fields.map (·.ident)
  totals : ∀ f ∈ facet?, ∀ t ∈ f.totals, t.total.reads ⊆ g.fields.map (·.ident)

variable {facet? : Option Facet} {shown : List String} {order : List OrderKey}

theorem Placed.facet_reads (h : Placed g facet? shown order) (hf : f ∈ facet?)
    (hcolumn : column ∈ f.partitionKeys ∨ ∃ t ∈ f.totals, column ∈ t.total.reads) :
    column ∈ g.keys.map (·.ident) ++ g.fields.map (·.ident) := by
  rcases hcolumn with hkey | ⟨t, ht, hread⟩
  · exact List.mem_append_left _ (h.keys f hf (List.mem_append_left _ hkey))
  · exact List.mem_append_right _ (h.totals f hf t ht hread)

theorem Placed.body_reads (h : Placed g facet? shown order) (hf : f ∈ facet?)
    (hcolumn : column ∈ shown ++ f.facetKeys) :
    column ∈ g.keys.map (·.ident) ++ g.fields.map (·.ident) ++ f.totals.map (·.ident) := by
  simp only [h.faceted f hf, List.mem_append] at hcolumn ⊢
  have hkeys {column : String} (hmem : column ∈ f.partitionKeys ∨ column ∈ f.facetKeys) :=
    h.keys f hf (List.mem_append.mpr hmem)
  rcases hcolumn with ((hkey | htotal) | harray) | hkey
  · exact .inl (.inl (hkeys (.inl hkey)))
  · exact .inr htotal
  · exact .inl (.inr (h.arrays f hf harray))
  · exact .inl (.inl (hkeys (.inr hkey)))

/-- Every select of an analysis reads columns of the one before it, and the last gives the columns
shown. Windows and facets go by the partition. -/
theorem analysis_columns {st : Statement} (h : r.analysis p = .ok st)
    (hplaced : ∀ g, p.group? = some g → Placed g p.facet? shown
      ((p.stages.findSome? Stage.sort?).getD []))
    (hshown : p.stages.findSome? Stage.project? = some shown) :
    st.Chained ∧ st.outputs = shown ∧
      ∀ f ∈ p.facet?, (∀ window ∈ st.windows, window = f.partitionKeys) ∧
        ∃ names, st.body.grouping = .keys names ∧ names.map (·.text) = f.partitionKeys := by
  rw [Reader.analysis] at h
  split at h
  · cases h
  · next g hg =>
    have hplaced := hplaced g hg
    obtain ⟨base, hbase, h⟩ := bind_ok.mp h
    obtain ⟨htable, hwindows, houtputs⟩ := baseQuery_columns hbase
    split at h
    · next f hf =>
      simp only [bind_ok, pure_ok] at h
      obtain ⟨facets, hfacets, body, hbody, paged, hpaged, rfl⟩ := h
      obtain ⟨hsource, hcolumns, hreads, hpartition⟩ :=
        facetQuery_columns hfacets
      obtain ⟨hsource', hwindows', hnone, ⟨names, hgrouping, hnames⟩, hcolumns', hreads'⟩ :=
        facetBody_columns hbody
      obtain ⟨hsource'', hwindows'', hgrouping', hcolumns'', hreads''⟩ :=
        paged_columns hpaged hnone
      have hbefore : facets.outputs (base.outputs []) =
          g.keys.map (·.ident) ++ g.fields.map (·.ident) ++ f.totals.map (·.ident) := by
        rw [hcolumns, houtputs]
      refine ⟨⟨htable, ⟨hsource, fun column hcolumn => ?_⟩, hsource''.trans hsource',
        fun column hcolumn => ?_⟩, ?_, fun f' hf' => ?_⟩
      · rw [Option.elim_none, houtputs]
        exact hplaced.facet_reads hf (hreads column hcolumn)
      · change column ∈ facets.outputs (base.outputs [])
        rw [hbefore]
        refine hplaced.body_reads hf ?_
        rcases hreads'' column hcolumn with hread | ⟨k, hk, rfl⟩
        · exact hplaced.faceted f hf ▸ hreads' column hread
        · exact List.mem_append_left _ (hplaced.ordered k hk)
      · exact (hcolumns'' _).trans ((hcolumns' _).trans (hplaced.faceted f hf).symm)
      · obtain rfl := Option.some.inj (hf.symm.trans hf')
        refine ⟨?_, names, hgrouping'.trans hgrouping, hnames⟩
        simpa [Statement.windows, hwindows, hwindows', hwindows''] using hpartition
    · next hf =>
      simp only [bind_ok, pure_ok] at h
      obtain ⟨body, hbody, paged, hpaged, rfl⟩ := h
      obtain ⟨shown', hshown', hsource, hwindows', hnone, hcolumns, hreads⟩ :=
        plainBody_columns hbody
      obtain rfl := Option.some.inj (hshown.symm.trans hshown')
      obtain ⟨hsource', hwindows'', -, hcolumns', hreads'⟩ :=
        paged_columns hpaged hnone
      refine ⟨⟨htable, hsource'.trans hsource, fun column hcolumn => ?_⟩,
        (hcolumns' _).trans (hcolumns _), fun f hf' => ?_⟩
      · change column ∈ base.outputs []
        rw [houtputs]
        refine hplaced.plain hf ?_
        rcases hreads' column hcolumn with hread | ⟨k, hk, rfl⟩
        · exact hreads ▸ hread
        · exact hplaced.ordered k hk
      · rw [hf] at hf'
        cases hf'

end CostQuery.Sql

import CostQuery.Proofs.Plan.Grouping
import CostQuery.Proofs.Plan.Kept

/-! A total over the groups of a partition is the aggregate over the rows of the partition. -/

namespace CostQuery
variable {Row V : Type} [DecidableEq V] {g : Group}

/-- A value is found by its key if no other value has the key. -/
theorem lookup_map {α β : Type} {xs : List α} {key : α → String} (value : α → β)
    (hnodup : (xs.map key).Nodup) {x : α} (hx : x ∈ xs) :
    (xs.map fun x => (key x, value x)).lookup (key x) = some (value x) := by
  obtain ⟨before, after, rfl⟩ := List.append_of_mem hx
  rw [List.map_append, List.map_cons] at hnodup
  refine List.lookup_eq_some_iff.mpr ⟨before.map fun x => (key x, value x),
    after.map fun x => (key x, value x), List.map_append, fun y hy => ?_⟩
  obtain ⟨b, hb, rfl⟩ := List.mem_map.mp hy
  have hne := (List.nodup_append.mp hnodup).2.2 _ (List.mem_map_of_mem hb) _ List.mem_cons_self
  simpa using hne.symm

/-- The aggregate of a field over rows, not grouped. -/
def FieldSpec.direct (f : FieldSpec) (read : RowReader Row V) (rows : List Row) : Option ℚ :=
  match f.aggregate with
  | .count => some rows.length
  | .average =>
    let xs := f.input.numbers read rows
    some (if xs = [] then 0 else xs.sum / xs.length)
  | a => a.over (f.input.numbers read rows)

namespace Group
variable (read : RowReader Row V) (rows : List Row) (p : List (String × V) → Bool)

/-- The rows with the keys that pass a test, group after group. -/
def parts (g : Group) : List (List Row) :=
  ((rows.map (g.keysOf read)).dedup.filter p).map (g.members read rows)

theorem parts_perm (g : Group) : (g.parts read rows p).flatten.Perm
    (rows.filter fun row => p (g.keysOf read row)) := by
  have hmembers : ∀ k ∈ (rows.map (g.keysOf read)).dedup.filter p,
      g.members read rows k = (rows.filter fun row => p (g.keysOf read row)).filter
        fun row => g.keysOf read row = k := by
    intro k hk
    rw [members, List.filter_filter]
    refine List.filter_congr fun row _ => ?_
    by_cases h : g.keysOf read row = k
    · simp [h, (List.mem_filter.mp hk).2]
    · simp [h]
  rw [parts, ← List.flatMap_def, List.flatMap_congr hmembers]
  refine flatMap_filter_perm _ ((List.nodup_dedup _).filter _) fun row hrow => ?_
  obtain ⟨hrow, hp⟩ := List.mem_filter.mp hrow
  exact List.mem_filter.mpr ⟨List.mem_dedup.mpr (List.mem_map_of_mem hrow), hp⟩

theorem column_rows (hnodup : (g.fields.map (·.ident)).Nodup) {c : AggregateField}
    (hc : c ∈ g.fields) :
    GroupRow.column c.ident ((g.rows read rows).filter fun row => p row.keys) =
      ((g.parts read rows p).map (c.input.numbers read)).filterMap c.aggregate.over := by
  have hrows : (g.rows read rows).filter (fun row => p row.keys) =
      ((rows.map (g.keysOf read)).dedup.filter p).map (g.row read rows) := by
    rw [Group.rows, List.filter_map]
    rfl
  rw [hrows, GroupRow.column, parts, List.map_map, List.filterMap_map, List.filterMap_map]
  refine List.filterMap_congr fun keys _ => ?_
  rw [Function.comp_apply, row, lookup_map _ hnodup hc]
  rfl

/-- What the fields go over is in the groups as it is in the rows. -/
theorem numbers_parts (input : AggregateInput) :
    ((g.parts read rows p).map (input.numbers read)).flatten.Perm
      (input.numbers read (rows.filter fun row => p (g.keysOf read row))) :=
  input.numbers_flatten read _ ▸ input.numbers_perm read (g.parts_perm read rows p)

theorem column_sum (hnodup : (g.fields.map (·.ident)).Nodup) {c : AggregateField}
    (hc : c ∈ g.fields) (hsum : c.aggregate = .sum) :
    (GroupRow.column c.ident ((g.rows read rows).filter fun row => p row.keys)).sum =
      (c.input.numbers read (rows.filter fun row => p (g.keysOf read row))).sum := by
  rw [column_rows read rows p hnodup hc, hsum, ← (numbers_parts read rows p c.input).sum_eq,
    List.sum_flatten]
  exact congrArg List.sum (congrFun List.filterMap_eq_map' _)

theorem column_count (hnodup : (g.fields.map (·.ident)).Nodup) {c : AggregateField}
    (hc : c ∈ g.fields) (hcount : c.aggregate = .count) :
    (GroupRow.column c.ident ((g.rows read rows).filter fun row => p row.keys)).sum =
      (c.input.numbers read (rows.filter fun row => p (g.keysOf read row))).length := by
  rw [column_rows read rows p hnodup hc, hcount,
    ← (numbers_parts read rows p c.input).length_eq, List.length_flatten]
  refine Eq.trans ?_ (map_list_sum (Nat.castAddMonoidHom ℚ) _).symm
  rw [List.map_map]
  exact congrArg List.sum (congrFun List.filterMap_eq_map' _)

theorem column_pick (hnodup : (g.fields.map (·.ident)).Nodup) {c : AggregateField}
    (hc : c ∈ g.fields) {a : Aggregate} (ha : c.aggregate = a) {le : ℚ → ℚ → Prop}
    (hpick : Picks le a.over) :
    a.over (GroupRow.column c.ident ((g.rows read rows).filter fun row => p row.keys)) =
      a.over (c.input.numbers read (rows.filter fun row => p (g.keysOf read row))) := by
  rw [column_rows read rows p hnodup hc, ha]
  exact hpick.flatten (numbers_parts read rows p c.input)

end Group

/-- A total of a field over the groups that pass a test is its aggregate over their rows. -/
theorem FieldSpec.IsTotal.over_rows {f : FieldSpec} {t : Total} (h : f.IsTotal g.fields t)
    (read : RowReader Row V) (rows : List Row) (p : List (String × V) → Bool)
    (hnodup : (g.fields.map (·.ident)).Nodup) (hcolumn : f.column ∈ g.fields) :
    t.over ((g.rows read rows).filter fun row => p row.keys) =
      f.direct read (rows.filter fun row => p (g.keysOf read row)) := by
  cases t with
  | sum ident =>
    obtain ⟨rfl, hsum | hcount⟩ := h
    · rw [Total.over, direct, hsum]
      exact congrArg some (Group.column_sum read rows p hnodup hcolumn hsum)
    · have hlength := Group.column_count read rows p hnodup hcolumn hcount
      rw [Total.over, direct, hcount]
      refine congrArg some (hlength.trans ?_)
      simp [column, input, hcount, AggregateInput.numbers]
  | min ident =>
    obtain ⟨rfl, hmin⟩ := h
    rw [Total.over, direct, hmin]
    exact Group.column_pick read rows p hnodup hcolumn hmin picks_min
  | max ident =>
    obtain ⟨rfl, hmax⟩ := h
    rw [Total.over, direct, hmax]
    exact Group.column_pick read rows p hnodup hcolumn hmax picks_max
  | ratio s c =>
    obtain ⟨haverage, -, hs, hc⟩ := h
    have hsum := Group.column_sum read rows p hnodup hs rfl
    have hcount := Group.column_count read rows p hnodup hc rfl
    simp only [Total.over, direct, haverage, hsum, hcount, Nat.cast_eq_zero,
      List.length_eq_zero_iff]

/-- Each total of a plan is that of one field, and over the groups of any partition it has the
value of the field's aggregate over the rows of the partition. -/
theorem AnalyzePlan.totals_direct {limits : RangeLimits} {r : Request} {q : AnalyzeQuery}
    {plan : AnalyzePlan} {facet : Facet} (hq : AnalyzeQuery.ofRequest limits r = .ok q)
    (h : AnalyzePlan.ofQuery q = .ok plan) (hfacet : plan.facet? = some facet) :
    ∃ g, plan.group? = some g ∧ ∀ t ∈ facet.totals,
      ∃ f ∈ q.fields, plan.Keeps g f ∧ t.ident = f.totalIdent ∧ f.IsTotal g.fields t.total ∧
        ∀ {Row V : Type} [DecidableEq V] (read : RowReader Row V) (rows : List Row)
          (partition : List (Option V)),
          t.total.over ((g.rows read rows).filter fun row =>
              facet.partitionOf row.keys = partition) =
            f.direct read (rows.filter fun row =>
              facet.partitionOf (g.keysOf read row) = partition) := by
  have hkeys : ∀ f ∈ q.fields, f.aggregate ≠ .count → f.key ≠ none :=
    fun f hf hcount => AnalyzeQuery.key_of_ofRequest hq hf hcount
  obtain ⟨-, rfl⟩ := AnalyzePlan.ofQuery_ok h
  rw [facet?, q.facet_stages] at hfacet
  split at hfacet
  · next hf =>
    obtain rfl := Option.some.inj hfacet
    refine ⟨⟨q.draft.keys, q.draft.fields⟩, q.group_stages q.draft, fun t ht => ?_⟩
    obtain ⟨f, hmem, hcolumn, hnamed, hident, htotal⟩ :=
      AnalyzeQuery.exists_field_of_total hf hkeys ht
    refine ⟨f, hmem, ⟨hcolumn, hf ▸ hnamed⟩, hident, htotal,
      fun {Row V} _ read rows partition => ?_⟩
    have hnodup : (q.draft.fields.map (·.ident)).Nodup := (List.nodup_append.mp
      (List.nodup_append.mp q.draft_scoped.columns_nodup).2.1).1
    exact htotal.over_rows (g := ⟨q.draft.keys, q.draft.fields⟩) read rows
      (fun keys => q.draft.facet.partitionOf keys = partition) hnodup hcolumn
  · cases hfacet

/-- A provider, a region and a cost. -/
def costRows : List (String × String × Option ℚ) :=
  [("aws", "eu", some 1), ("aws", "us", none), ("aws", "us", some 2), ("gcp", "eu", some 5),
    ("aws", "eu", some 6)]

def costReader : RowReader (String × String × Option ℚ) String where
  key source row := match source with
    | .column c => if c.root = "provider" then row.1 else row.2.1
    | _ => "2024-02-29"
  number _ row := row.2.2

/-- The mean over two regions is no mean of means. -/
theorem regionQuery_mean :
    ∃ plan g facet, AnalyzePlan.ofQuery regionQuery = .ok plan ∧ plan.group? = some g ∧
      plan.facet? = some facet ∧ ∃ t ∈ facet.totals, t.ident = "_total_mean_cost" ∧
        t.total.over ((g.rows costReader costRows).filter fun row =>
          facet.partitionOf row.keys = [some "2024-02-29", some "aws"]) = some 3 := by
  have h : AnalyzePlan.ofQuery regionQuery = .ok _ := rfl
  obtain ⟨g, hg, htotals⟩ := AnalyzePlan.totals_direct ofRequest_regionRequest h rfl
  obtain rfl := Option.some.inj hg
  refine ⟨_, _, _, h, rfl, rfl, _, List.mem_of_getElem? (i := 1) rfl, rfl, ?_⟩
  obtain ⟨f, hf, -, hident, -, hvalue⟩ := htotals _ (List.mem_of_getElem? (i := 1) rfl)
  rw [hvalue]
  have hmean : f = ⟨"mean cost", .average, some "cost", []⟩ := by
    rcases List.mem_cons.mp hf with rfl | hf
    · exact absurd hident (by decide)
    · exact List.mem_singleton.mp hf
  rw [hmean]
  decide +kernel

end CostQuery

import CostQuery.Proofs.Plan.Steps
import CostQuery.Proofs.Plan.Stages
import CostQuery.Proofs.Query.Checked

/-! What a plan reads: no column that its query does not name, and no aggregate but a count is
without an input. -/

namespace CostQuery

/-! The columns of the parts of a query. -/

namespace Computed

mutual

def columns : Computed → List Column
  | .column c | .size c => [c]
  | .literal _ => []
  | .arithmetic _ operands => columnsOfAll operands

def columnsOfAll : List Computed → List Column
  | [] => []
  | e :: rest => e.columns ++ columnsOfAll rest

end

theorem columnsOfAll_eq (es : List Computed) : columnsOfAll es = es.flatMap columns := by
  induction es with
  | nil => rfl
  | cons e rest ih => rw [columnsOfAll, ih, List.flatMap_cons]

theorem columns_subset_arithmetic {op : Arithmetic} {operands : List Computed} {e : Computed}
    (he : e ∈ operands) : e.columns ⊆ (arithmetic op operands).columns := by
  rw [columns, columnsOfAll_eq]
  exact fun c hc => List.mem_flatMap.mpr ⟨e, he, hc⟩

end Computed

def FieldSpec.columns (f : FieldSpec) : List Column :=
  (f.key.toList ++ f.slots.map (·.2)).map Column.ofKey

def selectColumns (select : List (String × SelectExpr)) : List Column :=
  select.flatMap fun s => (Computed.ofSelect s.2).columns

def conditionColumns (conditions : List Condition) : List Column :=
  conditions.map fun c => Column.ofKey c.key

def AnalyzeQuery.columns (q : AnalyzeQuery) : List Column :=
  (q.groupBy ++ q.fieldGroup).map (fun c => Column.ofKey c.key) ++
    (q.fields.flatMap FieldSpec.columns ++ (selectColumns q.select ++
      (conditionColumns (q.filter ++ q.filterOr) ++ (q.unwind.map Column.ofKey).toList)))

/-! The columns of the parts of a plan. -/

def AggregateInput.columns : AggregateInput → List Column
  | .column c => [c]
  | .rows => []
  | .slots parts => parts.map (·.2)

theorem FieldSpec.columns_input (f : FieldSpec) : f.input.columns ⊆ f.columns := by
  obtain ⟨name, aggregate, key, slots⟩ := f
  cases key with
  | none => cases aggregate <;> exact List.nil_subset _
  | some key =>
    cases aggregate with
    | count => exact List.nil_subset _
    | push =>
      refine List.subset_cons_of_subset _ ?_
      simp [input, AggregateInput.columns, Function.comp_def]
    | sum | average | max | min | addToSet => simp [input, AggregateInput.columns, columns]

/-- It reads these columns only, and its arithmetic has operands. -/
def KeySource.Reads (columns : List Column) : KeySource → Prop
  | .column c => c ∈ columns
  | .bucket _ => True
  | .computed e => e.Filled ∧ e.columns ⊆ columns

structure AggregateField.Reads (columns : List Column) (f : AggregateField) : Prop where
  input : f.input.columns ⊆ columns
  counts : f.input = .rows → f.aggregate = .count

namespace Draft
variable {d : Draft} {columns : List Column} {groupBy : List ColumnRef}

structure Reads (columns : List Column) (d : Draft) : Prop where
  keys : ∀ k ∈ d.keys, k.source.Reads columns
  fields : ∀ f ∈ d.fields, f.Reads columns

theorem reads_empty : Reads columns {} where
  keys _ h := absurd h List.not_mem_nil
  fields _ h := absurd h List.not_mem_nil

theorem Reads.addKey (h : d.Reads columns) (name : String) {source : KeySource}
    (hs : source.Reads columns) : (d.addKey name source).2.Reads columns := by
  rcases d.addKey_cases name source with ⟨-, r, hadd, -⟩ | ⟨-, o, r, hadd, -⟩ <;>
    rw [hadd]
  · exact ⟨List.forall_mem_append.mpr ⟨h.keys, List.forall_mem_singleton.mpr hs⟩, h.fields⟩
  · exact ⟨h.keys, h.fields⟩

theorem Reads.addFacet (h : d.Reads columns) {c : ColumnRef} (hc : Column.ofKey c.key ∈ columns) :
    (d.addFacet groupBy c).Reads columns := by
  have hsource : (KeySource.column (Column.ofKey c.key)).Reads columns := hc
  have hcolumn : (d.addColumn c).2.Reads columns := h.addKey c.name hsource
  obtain ⟨facetKeys, heq⟩ := d.addFacet_draft groupBy c
  rw [heq]
  rcases d.facetKey_draft groupBy c with hd | hd <;> rw [hd]
  · exact ⟨h.keys, h.fields⟩
  · exact ⟨hcolumn.keys, hcolumn.fields⟩

/-- A field adds its own column, and an average two more of the same input. -/
theorem addField_draft (faceted : Bool) (d : Draft) (f : FieldSpec) :
    (d.addField faceted f).keys = d.keys ∧ ∀ c ∈ (d.addField faceted f).fields,
      c ∈ d.fields ∨ (c.input = f.input ∧
        (c.aggregate = f.aggregate ∨ ∃ column, f.input = .column column)) := by
  rcases addField_cases faceted d f with ⟨-, r, heq, -⟩ |
    ⟨-, parts, helpers, r, heq, -, -, -, hinput, -⟩ <;> rw [heq]
  · exact ⟨rfl, fun c hc => Or.inl hc⟩
  · refine ⟨rfl, fun c hc => (List.mem_append.mp hc).imp_right fun hc => ?_⟩
    rcases List.mem_cons.mp hc with rfl | hc
    · exact ⟨rfl, Or.inl rfl⟩
    · obtain ⟨hparts, heq, -⟩ := of_mem_hiddenColumns hc
      exact ⟨heq, Or.inr (hinput hparts)⟩

theorem Reads.addField (h : d.Reads columns) (faceted : Bool) {f : FieldSpec}
    (hf : f.columns ⊆ columns) (hkey : f.aggregate ≠ .count → f.key ≠ none) :
    (d.addField faceted f).Reads columns := by
  obtain ⟨hkeys, hfields⟩ := d.addField_draft faceted f
  refine ⟨hkeys ▸ h.keys, fun c hc => ?_⟩
  rcases hfields c hc with hc | ⟨hinput, haggregate⟩
  · exact h.fields c hc
  · refine ⟨hinput ▸ List.Subset.trans f.columns_input hf, fun hrows => ?_⟩
    rw [hinput] at hrows
    rcases haggregate with haggregate | ⟨column, hcolumn⟩
    · rw [haggregate]
      by_contra hcount
      obtain ⟨key, hk⟩ := Option.ne_none_iff_exists'.mp (hkey hcount)
      cases ha : f.aggregate <;> simp_all [FieldSpec.input]
    · rw [hcolumn] at hrows
      cases hrows

theorem Reads.addTotal (h : d.Reads columns) (f : PlannedField) :
    (d.addTotal f).Reads columns := by
  rcases d.addTotal_cases f with ⟨r, heq, -⟩ | ⟨t, r, -, heq, -⟩ <;> rw [heq]
  · exact ⟨h.keys, h.fields⟩
  · exact ⟨h.keys, h.fields⟩

end Draft

namespace AnalyzeQuery
variable {q : AnalyzeQuery}

theorem draft_reads {limits : RangeLimits} {r : Request} (hq : ofRequest limits r = .ok q) :
    q.draft.Reads q.columns := by
  have hcolumn : ∀ c ∈ q.groupBy ++ q.fieldGroup,
      KeySource.Reads q.columns (.column (Column.ofKey c.key)) :=
    fun c hc => List.mem_append_left _ (List.mem_map_of_mem hc)
  have hcomputed : ∀ s ∈ q.select,
      KeySource.Reads q.columns (.computed (Computed.ofSelect s.2)) := fun s hs =>
    ⟨filled_of_ofRequest hq hs, fun c hc => List.mem_append_right _ (List.mem_append_right _
      (List.mem_append_left _ (List.mem_flatMap.mpr ⟨s, hs, hc⟩)))⟩
  have hfield : ∀ f ∈ q.fields, f.columns ⊆ q.columns := fun f hf c hc =>
    List.mem_append_right _ (List.mem_append_left _ (List.mem_flatMap.mpr ⟨f, hf, hc⟩))
  have hkeys : q.draftKeys.Reads q.columns := by
    refine q.draftKeys_run (q.groupDraft_run Draft.reads_empty ?_ ?_) ?_
    · intro d p h
      have hbucket : (KeySource.bucket p).Reads q.columns := trivial
      exact h.addKey "date" hbucket
    · exact fun _ c hc h => h.addKey c.name (hcolumn c (List.mem_append_left _ hc))
    · exact fun _ c hc h => h.addFacet (hcolumn c (List.mem_append_right _ hc))
  exact q.draftFields_run hkeys (fun _ s hs h => h.addKey s.1 (hcomputed s hs))
    (fun _ f hf h => h.addField q.isFaceted (hfield f hf) (key_of_ofRequest hq hf))
    fun _ _ f _ h => h.addTotal f

end AnalyzeQuery
end CostQuery

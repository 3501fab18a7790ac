import CostQuery.Proofs.Plan.Keys

/-! Where the columns of a plan come from: each was made for one field of the query. -/

namespace CostQuery

theorem ofName_of_helpers {a b n n' : String} (hn : n ∈ helperNames a) (hn' : n' ∈ helperNames b)
    (h : Alias.ofName n = Alias.ofName n') : Alias.ofName a = Alias.ofName b := by
  simp only [helperNames, List.mem_cons, List.not_mem_nil, or_false] at hn hn'
  rcases hn with rfl | rfl <;> rcases hn' with rfl | rfl
  · exact Alias.ofName_of_marked Alias.isMark_sum h
  · exact absurd h (Alias.sum_ne_count a b)
  · exact absurd h.symm (Alias.sum_ne_count b a)
  · exact Alias.ofName_of_marked Alias.isMark_count h

theorem total_ne_helper {a b n : String} (hn : n ∈ helperNames b) :
    Alias.ofName (totalMark ++ a) ≠ Alias.ofName n := by
  simp only [helperNames, List.mem_cons, List.not_mem_nil, or_false] at hn
  rcases hn with rfl | rfl
  · exact Alias.total_ne_sum a b
  · exact Alias.total_ne_count a b

namespace FieldSpec

/-- The column of the groups that shows a field. -/
def column (f : FieldSpec) : AggregateField := ⟨Alias.ofName f.name, f.aggregate, f.input, false⟩

/-- A total is made from the column of a field, and that of an average from the hidden sum and
count of the same input. -/
def IsTotal (f : FieldSpec) (columns : List AggregateField) : Total → Prop
  | .sum ident => ident = Alias.ofName f.name ∧ (f.aggregate = .sum ∨ f.aggregate = .count)
  | .min ident => ident = Alias.ofName f.name ∧ f.aggregate = .min
  | .max ident => ident = Alias.ofName f.name ∧ f.aggregate = .max
  | .ratio sum count => f.aggregate = .average ∧ (sum, count) = partIdents f.name ∧
      ⟨sum, .sum, f.input, true⟩ ∈ columns ∧ ⟨count, .count, f.input, true⟩ ∈ columns

end FieldSpec

namespace PlannedField
variable {p : PlannedField} {f : FieldSpec} {columns columns' : List AggregateField}

/-- The columns made for a field are there. -/
structure Serves (p : PlannedField) (f : FieldSpec) (columns : List AggregateField) : Prop where
  name : p.name = f.name
  ident : p.ident = Alias.ofName f.name
  aggregate : p.aggregate = f.aggregate
  parts : ∀ x ∈ p.parts, x = partIdents f.name
  shown : f.column ∈ columns
  hidden : hiddenColumns f.input p.parts ⊆ columns

theorem Serves.mono (h : p.Serves f columns) (hsub : columns ⊆ columns') : p.Serves f columns' :=
  { h with shown := hsub h.shown, hidden := List.Subset.trans h.hidden hsub }

theorem Serves.isTotal (h : p.Serves f columns) {t : Total} (ht : p.total? = some t) :
    f.IsTotal columns t := by
  rw [total?, h.aggregate, h.ident] at ht
  cases hf : f.aggregate with
  | sum | count | min | max =>
    rw [hf] at ht
    obtain rfl := Option.some.inj ht
    simp [FieldSpec.IsTotal, hf]
  | average =>
    rw [hf] at ht
    obtain ⟨⟨sum, count⟩, hp, rfl⟩ := Option.map_eq_some_iff.mp ht
    have hidden := h.hidden
    rw [hp] at hidden
    exact ⟨hf, h.parts _ hp, hidden List.mem_cons_self,
      hidden (List.mem_cons_of_mem _ List.mem_cons_self)⟩
  | push | addToSet =>
    rw [hf] at ht
    cases ht

/-- Only an average without its parts goes without a total. -/
theorem exists_total (hp : p.aggregate.isNumeric = true)
    (hparts : p.aggregate = .average → p.parts ≠ none) : ∃ t, p.total? = some t := by
  rw [total?]
  cases ha : p.aggregate with
  | sum | count | min | max => exact ⟨_, rfl⟩
  | average =>
    obtain ⟨parts, h⟩ := Option.ne_none_iff_exists'.mp (hparts ha)
    exact ⟨_, by rw [h]; rfl⟩
  | push | addToSet =>
    rw [ha] at hp
    cases hp

end PlannedField

namespace Draft
variable {d : Draft} {specs : List FieldSpec}

/-! Before the fields, there are keys only. -/

structure Bare (d : Draft) : Prop where
  fields : d.fields = []
  planned : d.planned = []
  totals : d.totals = []
  totalOf : d.totalOf = []

theorem bare_empty : Bare {} := ⟨rfl, rfl, rfl, rfl⟩

theorem Bare.addKey (h : d.Bare) (name : String) (source : KeySource) :
    (d.addKey name source).2.Bare := by
  rcases d.addKey_cases name source with ⟨-, r, hadd, -⟩ | ⟨-, o, r, hadd, -⟩ <;> rw [hadd] <;>
    exact { h with }

theorem Bare.addFacet (h : d.Bare) (groupBy : List ColumnRef) (c : ColumnRef) :
    (d.addFacet groupBy c).Bare := by
  have hcolumn : (d.addColumn c).2.Bare := h.addKey ..
  obtain ⟨facetKeys, heq⟩ := d.addFacet_draft groupBy c
  rw [heq]
  rcases d.facetKey_draft groupBy c with hd | hd <;> rw [hd]
  · exact { h with }
  · exact { hcolumn with }

/-! The fields. -/

/-- The identifiers of the columns that are not hidden. -/
def shownIdents (d : Draft) : List String := d.keyIdents ++ d.plannedIdents

theorem shownIdents_append (d : Draft) (registry : Registry) (fields : List AggregateField)
    (p : PlannedField) : shownIdents { d with registry, fields, planned := d.planned ++ [p] } =
      d.shownIdents ++ [p.ident] := by
  rw [shownIdents, plannedIdents, List.map_append, ← List.append_assoc]
  rfl

/-- An identifier is shown, or one that an average takes for a hidden column. -/
def Owned (d : Draft) (ident : String) : Prop :=
  ident ∈ d.shownIdents ∨ ∃ p ∈ d.planned, ∃ n ∈ helperNames p.name, ident = Alias.ofName n

/-- Every column was made for a field asked for, and only names shown keep an average from its
parts. -/
structure Traced (specs : List FieldSpec) (d : Draft) : Prop where
  served : ∀ p ∈ d.planned, ∃ f ∈ specs, p.Serves f d.fields
  entered : ∀ p ∈ d.planned, OutputColumn.named p.name ∈ d.registry.entries
  shown : ∀ c ∈ d.fields, c.hidden = false → c.ident ∈ d.plannedIdents
  owned : ∀ ident ∈ d.registry.idents, d.Owned ident
  undivided : ∀ p ∈ d.planned, p.aggregate = .average → p.parts = none →
    ∃ n ∈ helperNames p.name, Alias.ofName n ∈ d.shownIdents
  totals : d.totals = []
  totalOf : d.totalOf = []

theorem Bare.traced (h : d.Bare) (hk : d.KeysOnly) : d.Traced specs where
  served _ hp := absurd (h.planned ▸ hp) List.not_mem_nil
  entered _ hp := absurd (h.planned ▸ hp) List.not_mem_nil
  shown _ hc := absurd (h.fields ▸ hc) List.not_mem_nil
  owned _ hident := Or.inl (List.mem_append_left _ (hk hident))
  undivided _ hp := absurd (h.planned ▸ hp) List.not_mem_nil
  totals := h.totals
  totalOf := h.totalOf

/-- No hidden column of another field stands in the way of an average. -/
theorem Traced.shown_of_helper (h : d.Traced specs) {name n : String}
    (hfree : Alias.ofName name ∉ d.registry.idents) (hn : n ∈ helperNames name)
    (htaken : Alias.ofName n ∈ d.registry.idents) : Alias.ofName n ∈ d.shownIdents := by
  rcases h.owned _ htaken with hshown | ⟨p, hp, n', hn', heq⟩
  · exact hshown
  · have hentry := List.mem_map_of_mem (f := (·.ident)) (h.entered p hp)
    exact absurd (ofName_of_helpers hn hn' heq ▸ hentry) hfree

theorem Traced.addField (h : d.Traced specs) {f : FieldSpec} (hf : f ∈ specs)
    (hkey : f.aggregate = .average → f.key ≠ none) : (d.addField true f).Traced specs := by
  rcases d.addField_cases true f with ⟨-, r, heq, hsame⟩ |
    ⟨hfree, parts, helpers, r, heq, hentries, hhelpers, hsome, -, hparts⟩
  · rw [heq]
    exact { h with
      entered := fun p hp => hsame ▸ h.entered p hp
      owned := fun ident hident => h.owned ident (by rwa [Registry.idents, ← hsame]) }
  · -- What was so stays so, and the new field has its columns and its names.
    let p : PlannedField := ⟨f.name, Alias.ofName f.name, f.aggregate, parts⟩
    have hp : p ∈ d.planned ++ [p] := List.mem_append_right _ (List.mem_singleton_self _)
    have hshown := shownIdents_append d r
      (d.fields ++ f.column :: hiddenColumns f.input parts) p
    rw [heq]
    constructor
    case served =>
      refine List.forall_mem_append.mpr ⟨fun p' hp' => ?_, List.forall_mem_singleton.mpr ?_⟩
      · obtain ⟨f', hf', hserves⟩ := h.served p' hp'
        exact ⟨f', hf', hserves.mono (List.subset_append_left _ _)⟩
      · refine ⟨f, hf, rfl, rfl, rfl, hsome, List.mem_append_right _ List.mem_cons_self, ?_⟩
        exact List.Subset.trans (List.subset_cons_self _ _) (List.subset_append_right _ _)
    case entered =>
      rw [hentries]
      refine List.forall_mem_append.mpr ⟨fun p' hp' => ?_, List.forall_mem_singleton.mpr ?_⟩
      · exact List.mem_append_left _ (h.entered p' hp')
      · exact List.mem_append_right _ List.mem_cons_self
    case shown =>
      refine List.forall_mem_append.mpr ⟨fun c hc hidden => ?_,
        List.forall_mem_cons.mpr ⟨fun _ => List.mem_map_of_mem hp, fun c hc hidden => ?_⟩⟩
      · rw [plannedIdents, List.map_append]
        exact List.mem_append_left _ (h.shown c hc hidden)
      · rw [(of_mem_hiddenColumns hc).2.2] at hidden
        cases hidden
    case owned =>
      intro ident hident
      rw [Registry.idents_of_entries _ hentries, List.map_cons] at hident
      rcases List.mem_append.mp hident with hold | hident
      · rcases h.owned ident hold with hmem | ⟨p', hp', hn⟩
        · exact Or.inl (hshown ▸ List.mem_append_left _ hmem)
        · exact Or.inr ⟨p', List.mem_append_left _ hp', hn⟩
      · rcases List.mem_cons.mp hident with rfl | hident
        · exact Or.inl (hshown ▸ List.mem_append_right _ (List.mem_singleton_self _))
        · obtain ⟨n, hn, rfl⟩ := List.mem_map.mp hident
          exact Or.inr ⟨p, hp, n, hhelpers hn, rfl⟩
    case undivided =>
      refine List.forall_mem_append.mpr ⟨fun p' hp' ha hnone => ?_,
        List.forall_mem_singleton.mpr fun ha hnone => ?_⟩
      · obtain ⟨n, hn, hmem⟩ := h.undivided p' hp' ha hnone
        exact ⟨n, hn, hshown ▸ List.mem_append_left _ hmem⟩
      · obtain ⟨n, hn, hmem⟩ := hparts rfl ha (hkey ha) hnone
        refine ⟨n, hn, hshown ▸ List.mem_append.mpr ?_⟩
        exact (List.mem_append.mp hmem).imp_left (h.shown_of_helper hfree hn)
    case totals => exact h.totals
    case totalOf => exact h.totalOf

end Draft
end CostQuery

import CostQuery.Proofs.Plan.Draft
import CostQuery.Proofs.Plan.Steps

/-! The keys of a plan in the making: facet keys are among the group keys. -/

namespace CostQuery

namespace Draft
variable {d d' : Draft} {name ident : String} {source : KeySource} {registration : Registration}
  {groupBy : List ColumnRef}

/-! What a step leaves alone. -/

/-- Neither a facet key nor a total is added. -/
structure Keeps (d d' : Draft) : Prop where
  facetKeys : d'.facetKeys = d.facetKeys
  totalOf : d'.totalOf = d.totalOf

theorem Keeps.refl (d : Draft) : Keeps d d := ⟨rfl, rfl⟩

theorem Keeps.trans {d₁ d₂ d₃ : Draft} (h : Keeps d₁ d₂) (h' : Keeps d₂ d₃) : Keeps d₁ d₃ :=
  ⟨h'.facetKeys.trans h.facetKeys, h'.totalOf.trans h.totalOf⟩

theorem keeps_addKey (d : Draft) (name : String) (source : KeySource) :
    Keeps d (d.addKey name source).2 := by
  rcases d.addKey_cases name source with ⟨-, r, hadd, -⟩ | ⟨-, o, r, hadd, -⟩ <;> rw [hadd] <;>
    exact ⟨rfl, rfl⟩

theorem keeps_addField (faceted : Bool) (d : Draft) (f : FieldSpec) :
    Keeps d (d.addField faceted f) := by
  rcases addField_cases faceted d f with ⟨-, r, heq, -⟩ | ⟨-, parts, helpers, r, heq, -⟩ <;>
    rw [heq] <;> exact ⟨rfl, rfl⟩

theorem facetKeys_addTotal (d : Draft) (f : PlannedField) :
    (d.addTotal f).facetKeys = d.facetKeys := by
  rcases d.addTotal_cases f with ⟨r, heq, -⟩ | ⟨t, r, -, heq, -⟩ <;> rw [heq]

theorem planned_addTotal (d : Draft) (f : PlannedField) :
    (d.addTotal f).planned = d.planned := by
  rcases d.addTotal_cases f with ⟨r, heq, -⟩ | ⟨t, r, -, heq, -⟩ <;> rw [heq]

theorem totalOf_addFacet (d : Draft) (c : ColumnRef) :
    (d.addFacet groupBy c).totalOf = d.totalOf := by
  obtain ⟨facetKeys, heq⟩ := d.addFacet_draft groupBy c
  rw [heq]
  rcases d.facetKey_draft groupBy c with hd | hd <;> rw [hd]
  exact (keeps_addKey d _ _).totalOf

/-! The keys of a plan. -/

/-- Every name registered so far is the name of a key. -/
def KeysOnly (d : Draft) : Prop := d.registry.idents ⊆ d.keyIdents

theorem KeysOnly.of_addKey (hk : d.KeysOnly) (ha : d.addKey name source = (registration, d')) :
    d'.KeysOnly ∧ registration.ident ∈ d'.keyIdents := by
  rcases d.addKey_cases name source with
    ⟨-, r, hadd, hentries⟩ | ⟨htaken, o, r, hadd, hident, hsame⟩ <;>
    obtain ⟨rfl, rfl⟩ := Prod.mk.inj (hadd.symm.trans ha)
  · have hidents := Registry.idents_of_entries [name] hentries
    rw [KeysOnly, keyIdents, hidents, List.map_append]
    exact ⟨List.append_subset.mpr ⟨List.subset_append_of_subset_left _ hk,
      List.subset_append_right _ _⟩, List.mem_append_right _ (List.mem_singleton_self _)⟩
  · rw [KeysOnly, Registry.idents, hsame]
    exact ⟨hk, hident ▸ hk htaken⟩

/-- While the keys are laid, nothing else is registered. -/
structure Keyed (d : Draft) : Prop where
  columns_scoped : d.Scoped
  keys_only : d.KeysOnly

theorem keyed_empty : Keyed {} := ⟨scoped_empty, List.nil_subset _⟩

theorem Keyed.addKey (h : d.Keyed) (name : String) (source : KeySource) :
    (d.addKey name source).2.Keyed :=
  ⟨h.columns_scoped.addKey name source, (h.keys_only.of_addKey rfl).1⟩

theorem Keyed.facetKey (h : d.Keyed) {c : ColumnRef} {key : Option String}
    (hf : Draft.facetKey groupBy d c = (key, d')) :
    d'.Keyed ∧ ∀ ident ∈ key, ident ∈ d'.keyIdents := by
  rw [Draft.facetKey] at hf
  split at hf
  · obtain ⟨rfl, rfl⟩ := Prod.mk.inj hf
    exact ⟨h, fun ident hident => h.keys_only (Registry.ident_mem_of_identOf hident)⟩
  · cases ha : d.addColumn c with
    | mk registration d1 =>
      have hkeyed : d1.Keyed := by
        have := h.addKey c.name (.column (Column.ofKey c.key))
        rwa [← addColumn, ha] at this
      have hmem := (h.keys_only.of_addKey ha).2
      cases registration with
      | new ident | existing ident =>
        simp only [ha, Prod.mk.injEq] at hf
        obtain ⟨rfl, rfl⟩ := hf
        exact ⟨hkeyed, fun _ hident => Option.mem_some_iff.mp hident ▸ hmem⟩
      | collision ident =>
        simp only [ha, Prod.mk.injEq] at hf
        obtain ⟨rfl, rfl⟩ := hf
        exact ⟨hkeyed, by simp⟩

theorem Scoped.withFacetKey (h : d.Scoped) (hkey : ident ∈ d.keyIdents)
    (hnew : ident ∉ d.facetKeys) : Scoped { d with facetKeys := d.facetKeys ++ [ident] } :=
  { h with
    facetKeys_nodup := (List.perm_append_singleton _ _).nodup_iff.mpr
      (List.nodup_cons.mpr ⟨hnew, h.facetKeys_nodup⟩)
    facetKeys_subset := List.append_subset.mpr
      ⟨h.facetKeys_subset, List.cons_subset.mpr ⟨hkey, List.nil_subset _⟩⟩ }

theorem Keyed.addFacet (h : d.Keyed) (c : ColumnRef) : (d.addFacet groupBy c).Keyed := by
  rw [Draft.addFacet]
  cases hf : Draft.facetKey groupBy d c with
  | mk key d1 =>
    obtain ⟨hkeyed, hmem⟩ := h.facetKey hf
    cases key with
    | none => exact hkeyed
    | some ident =>
      simp only
      split
      · exact hkeyed
      · next hnew =>
        rw [List.contains_iff_mem] at hnew
        exact ⟨hkeyed.columns_scoped.withFacetKey (hmem ident rfl) hnew, hkeyed.keys_only⟩

end Draft
end CostQuery

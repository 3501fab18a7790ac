import CostQuery.Plan.Draft
import CostQuery.Proofs.Plan.Registry
import Mathlib.Data.List.Perm.Basic

/-! Every step of a plan in the making keeps its columns apart. -/

namespace CostQuery

/-- The columns that a total is made from. -/
def Total.reads : Total → List String
  | .sum ident | .min ident | .max ident => [ident]
  | .ratio total count => [total, count]

namespace Draft
variable {d d' : Draft} {name ident : String} {source : KeySource} {registration : Registration}

def fieldIdents (d : Draft) : List String := d.fields.map (·.ident)

def totalIdents (d : Draft) : List String := d.totals.map (·.ident)

/-- The columns of the groups, and the totals over them. -/
def columns (d : Draft) : List String := d.keyIdents ++ (d.fieldIdents ++ d.totalIdents)

structure Scoped (d : Draft) : Prop where
  registry_valid : d.registry.Valid
  columns_nodup : d.columns.Nodup
  registered : d.columns ⊆ d.registry.idents
  facetKeys_nodup : d.facetKeys.Nodup
  facetKeys_subset : d.facetKeys ⊆ d.keyIdents
  planned_nodup : d.plannedIdents.Nodup
  planned_shown : ∀ f ∈ d.planned, ∃ field ∈ d.fields, field.ident = f.ident ∧ field.hidden = false
  parts_read : ∀ f ∈ d.planned, ∀ p ∈ f.parts, p.1 ∈ d.fieldIdents ∧ p.2 ∈ d.fieldIdents
  totals_read : ∀ t ∈ d.totals, t.total.reads ⊆ d.fieldIdents
  totalOf_total : ∀ t ∈ d.totalOf, t.2 ∈ d.totalIdents

/-- Registered, and no column as yet. -/
structure Fresh (d : Draft) (ident : String) : Prop where
  registered : ident ∈ d.registry.idents
  unused : ident ∉ d.columns

theorem scoped_empty : Scoped {} where
  registry_valid := Registry.valid_empty
  columns_nodup := List.nodup_nil
  registered := List.nil_subset _
  facetKeys_nodup := List.nodup_nil
  facetKeys_subset := List.nil_subset _
  planned_nodup := List.nodup_nil
  planned_shown _ h := absurd h List.not_mem_nil
  parts_read _ h := absurd h List.not_mem_nil
  totals_read _ h := absurd h List.not_mem_nil
  totalOf_total _ h := absurd h List.not_mem_nil

theorem Scoped.planned_subset (h : d.Scoped) : d.plannedIdents ⊆ d.fieldIdents := by
  intro ident hident
  obtain ⟨f, hf, rfl⟩ := List.mem_map.mp hident
  obtain ⟨field, hfield, heq, -⟩ := h.planned_shown f hf
  exact heq ▸ List.mem_map_of_mem hfield

/-! Registering names. -/

theorem register_eq (hr : d.register name = (registration, d')) :
    registration = (d.registry.register name).1 ∧
      d' = { d with registry := (d.registry.register name).2 } := by
  rw [register, Prod.mk.injEq] at hr
  exact ⟨hr.1.symm, hr.2.symm⟩

theorem fields_of_register (hr : d.register name = (registration, d')) :
    d'.fields = d.fields ∧ d'.planned = d.planned := by
  obtain ⟨-, rfl⟩ := register_eq hr
  exact ⟨rfl, rfl⟩

theorem Scoped.of_register (h : d.Scoped) (hr : d.register name = (registration, d')) :
    d'.Scoped := by
  obtain ⟨-, rfl⟩ := register_eq hr
  exact { h with
    registry_valid := h.registry_valid.register name
    registered := List.Subset.trans h.registered
      (Registry.idents_subset_register d.registry name) }

theorem not_mem_of_new (hr : d.register name = (.new ident, d')) :
    ident ∉ d.registry.idents ∧ ident ∈ d'.registry.idents := by
  obtain ⟨hnew, rfl⟩ := register_eq hr
  rcases d.registry.register_cases name with ⟨hfree, heq⟩ | ⟨-, hnone, -⟩
  · rw [heq] at hnew
    obtain rfl := Registration.new.inj hnew
    refine ⟨hfree, ?_⟩
    simp only [heq, Registry.idents]
    exact List.mem_map_of_mem (List.mem_append_right _ (List.mem_singleton_self _))
  · rw [← hnew] at hnone
    cases hnone

theorem Scoped.fresh_of_new (h : d.Scoped) (hr : d.register name = (.new ident, d')) :
    d'.Fresh ident := by
  obtain ⟨hfree, hmem⟩ := not_mem_of_new hr
  obtain ⟨-, rfl⟩ := register_eq hr
  exact ⟨hmem, fun hc => hfree (h.registered hc)⟩

theorem Fresh.of_register (hf : d.Fresh ident) (hr : d.register name = (registration, d')) :
    d'.Fresh ident := by
  obtain ⟨-, rfl⟩ := register_eq hr
  exact ⟨Registry.idents_subset_register d.registry name hf.registered, hf.unused⟩

/-! Adding columns. -/

theorem Scoped.columns_cons (h : d.Scoped) (hf : d.Fresh ident) {columns : List String}
    (hp : columns.Perm (ident :: d.columns)) : columns.Nodup ∧ columns ⊆ d.registry.idents := by
  constructor
  · exact hp.nodup_iff.mpr (List.nodup_cons.mpr ⟨hf.unused, h.columns_nodup⟩)
  · exact List.Subset.trans hp.subset (List.cons_subset.mpr ⟨hf.registered, h.registered⟩)

theorem Scoped.withKey (h : d.Scoped) (hf : d.Fresh ident) :
    Scoped { d with keys := d.keys ++ [⟨ident, source⟩] } := by
  have hp : (columns { d with keys := d.keys ++ [⟨ident, source⟩] }).Perm (ident :: d.columns) := by
    rw [columns, keyIdents, List.map_append, List.append_assoc]
    exact List.perm_middle
  obtain ⟨hnodup, hsubset⟩ := h.columns_cons hf hp
  refine { h with columns_nodup := hnodup, registered := hsubset, facetKeys_subset := ?_ }
  rw [keyIdents, List.map_append]
  exact List.Subset.trans h.facetKeys_subset (List.subset_append_left _ _)

theorem fieldIdents_addInput (d : Draft) (f : AggregateField) :
    (d.addInput f).fieldIdents = d.fieldIdents ++ [f.ident] := by
  rw [fieldIdents, addInput, List.map_append]
  rfl

theorem columns_addInput (d : Draft) (f : AggregateField) :
    (d.addInput f).columns.Perm (f.ident :: d.columns) := by
  rw [columns, fieldIdents_addInput, List.append_assoc, List.singleton_append, ← List.append_assoc]
  refine List.perm_middle.trans ?_
  rw [List.append_assoc]
  exact .refl _

theorem Scoped.addInput (h : d.Scoped) {f : AggregateField} (hf : d.Fresh f.ident) :
    (d.addInput f).Scoped := by
  obtain ⟨hnodup, hsubset⟩ := h.columns_cons hf (columns_addInput d f)
  have hgrow : d.fieldIdents ⊆ (d.addInput f).fieldIdents := by
    rw [fieldIdents_addInput]
    exact List.subset_append_left _ _
  exact { h with
    columns_nodup := hnodup
    registered := hsubset
    planned_shown := fun p hp =>
      (h.planned_shown p hp).imp fun _ hfield => ⟨List.mem_append_left _ hfield.1, hfield.2⟩
    parts_read := fun p hp q hq =>
      ⟨hgrow (h.parts_read p hp q hq).1, hgrow (h.parts_read p hp q hq).2⟩
    totals_read := fun t ht => List.Subset.trans (h.totals_read t ht) hgrow }

theorem Fresh.addInput (hf : d.Fresh ident) {f : AggregateField} (hne : ident ≠ f.ident) :
    (d.addInput f).Fresh ident := by
  refine ⟨hf.registered, fun hmem => ?_⟩
  rcases List.mem_cons.mp ((columns_addInput d f).subset hmem) with he | hmem
  · exact hne he
  · exact hf.unused hmem

theorem Scoped.withPlanned (h : d.Scoped) {f : PlannedField}
    (hshown : ∃ field ∈ d.fields, field.ident = f.ident ∧ field.hidden = false)
    (hnew : f.ident ∉ d.plannedIdents)
    (hparts : ∀ p ∈ f.parts, p.1 ∈ d.fieldIdents ∧ p.2 ∈ d.fieldIdents) :
    Scoped { d with planned := d.planned ++ [f] } := by
  refine { h with planned_nodup := ?_, planned_shown := ?_, parts_read := ?_ }
  · rw [plannedIdents, List.map_append]
    exact (List.perm_append_singleton _ _).nodup_iff.mpr
      (List.nodup_cons.mpr ⟨hnew, h.planned_nodup⟩)
  · exact List.forall_mem_append.mpr ⟨h.planned_shown, List.forall_mem_singleton.mpr hshown⟩
  · exact List.forall_mem_append.mpr ⟨h.parts_read, List.forall_mem_singleton.mpr hparts⟩

theorem Scoped.withTotal (h : d.Scoped) (hf : d.Fresh ident) {total : Total} {field : String}
    (hreads : total.reads ⊆ d.fieldIdents) :
    Scoped { d with
      totals := d.totals ++ [⟨ident, total⟩]
      totalOf := d.totalOf ++ [(field, ident)] } := by
  have hp : (d.keyIdents ++ (d.fieldIdents ++ (d.totalIdents ++ [ident]))).Perm
      (ident :: d.columns) := by
    rw [← List.append_assoc, ← List.append_assoc]
    refine (List.perm_append_singleton _ _).trans ?_
    rw [columns, List.append_assoc]
  have htotals : totalIdents { d with totals := d.totals ++ [⟨ident, total⟩] } =
      d.totalIdents ++ [ident] := by
    rw [totalIdents, List.map_append]
    rfl
  rw [← htotals] at hp
  obtain ⟨hnodup, hsubset⟩ := h.columns_cons hf hp
  refine { h with
    columns_nodup := hnodup, registered := hsubset, totals_read := ?_, totalOf_total := ?_ }
  · exact List.forall_mem_append.mpr ⟨h.totals_read, List.forall_mem_singleton.mpr hreads⟩
  · change ∀ t ∈ d.totalOf ++ [(field, ident)], t.2 ∈ totalIdents { d with
      totals := d.totals ++ [⟨ident, total⟩] }
    rw [htotals]
    refine List.forall_mem_append.mpr ⟨fun t ht => List.mem_append_left _ (h.totalOf_total t ht), ?_⟩
    exact List.forall_mem_singleton.mpr (List.mem_append_right _ (List.mem_singleton_self _))

/-! The steps. -/

theorem Scoped.addKey (h : d.Scoped) (name : String) (source : KeySource) :
    (d.addKey name source).2.Scoped := by
  rw [Draft.addKey]
  cases hr : d.register name with
  | mk registration d' =>
    cases registration with
    | new ident => exact (h.of_register hr).withKey (h.fresh_of_new hr)
    | existing | collision => exact h.of_register hr

theorem addParts_scoped (h : d.Scoped) (column : Column) {parts : Option (String × String)}
    (hp : d.addParts name column = (parts, d')) :
    d'.Scoped ∧ d'.planned = d.planned ∧ d.fields ⊆ d'.fields ∧
      ∀ p ∈ parts, p.1 ∈ d'.fieldIdents ∧ p.2 ∈ d'.fieldIdents := by
  rw [addParts] at hp
  cases hr : d.register ("__sum_" ++ name) with
  | mk registration d1 =>
    have h1 := h.of_register hr
    obtain ⟨hfields, hplanned⟩ := fields_of_register hr
    cases registration with
    | existing | collision =>
      simp only [hr, Prod.mk.injEq] at hp
      obtain ⟨rfl, rfl⟩ := hp
      exact ⟨h1, hplanned, hfields ▸ List.Subset.refl _, by simp⟩
    | new sum =>
      have hsum := h.fresh_of_new hr
      cases hr' : d1.register ("__count_" ++ name) with
      | mk registration d2 =>
        have h2 := h1.of_register hr'
        obtain ⟨hfields', hplanned'⟩ := fields_of_register hr'
        cases registration with
        | existing | collision =>
          simp only [hr, hr', Prod.mk.injEq] at hp
          obtain ⟨rfl, rfl⟩ := hp
          refine ⟨h2, hplanned'.trans hplanned, ?_, by simp⟩
          rw [hfields', hfields]
          exact List.Subset.refl _
        | new count =>
          have hcount := h1.fresh_of_new hr'
          have hne : count ≠ sum := by
            rintro rfl
            exact (not_mem_of_new hr').1 hsum.registered
          simp only [hr, hr', Prod.mk.injEq] at hp
          obtain ⟨rfl, rfl⟩ := hp
          refine ⟨(h2.addInput (hsum.of_register hr')).addInput (hcount.addInput hne),
            hplanned'.trans hplanned, ?_, ?_⟩
          · rw [← hfields, ← hfields']
            exact List.Subset.trans (List.subset_append_left _ _) (List.subset_append_left _ _)
          · simp [fieldIdents_addInput]

theorem Scoped.addField (h : d.Scoped) (faceted : Bool) (f : FieldSpec) :
    (d.addField faceted f).Scoped := by
  rw [Draft.addField]
  cases hr : d.register f.name with
  | mk registration d1 =>
    have h1 := h.of_register hr
    cases registration with
    | existing | collision => exact h1
    | new ident =>
      have hfresh := h.fresh_of_new hr
      have h2 : (d1.addInput ⟨ident, f.aggregate, f.input, false⟩).Scoped := h1.addInput hfresh
      have hshown : ∃ field ∈ (d1.addInput ⟨ident, f.aggregate, f.input, false⟩).fields,
          field.ident = ident ∧ field.hidden = false :=
        ⟨_, List.mem_append_right _ (List.mem_singleton_self _), rfl, rfl⟩
      have hnew : ident ∉ d1.plannedIdents := fun hmem =>
        hfresh.unused (List.mem_append_right _ (List.mem_append_left _ (h1.planned_subset hmem)))
      simp only
      split
      · next key _ _ =>
        obtain ⟨h3, hplanned, hfields, hparts⟩ := addParts_scoped h2 (Column.ofKey key) rfl
        refine h3.withPlanned ?_ ?_ hparts
        · exact hshown.imp fun field hfield => ⟨hfields hfield.1, hfield.2⟩
        · rw [plannedIdents, hplanned]
          exact hnew
      · exact h2.withPlanned hshown hnew (by simp)

theorem Scoped.reads_of_planned (h : d.Scoped) {f : PlannedField} (hf : f ∈ d.planned)
    {total : Total} (ht : f.total? = some total) : total.reads ⊆ d.fieldIdents := by
  have hident : f.ident ∈ d.fieldIdents := h.planned_subset (List.mem_map_of_mem hf)
  obtain ⟨name, ident, aggregate, parts⟩ := f
  cases aggregate with
  | sum | min | max | count =>
    obtain rfl := Option.some.inj ht
    simpa [Total.reads] using hident
  | average =>
    obtain ⟨p, hp, rfl⟩ := Option.map_eq_some_iff.mp ht
    simpa [Total.reads] using h.parts_read _ hf p hp
  | push | addToSet => cases ht

theorem Scoped.addTotal (h : d.Scoped) {f : PlannedField} (hf : f ∈ d.planned) :
    (d.addTotal f).Scoped := by
  rw [Draft.addTotal]
  split
  · exact h
  · next total ht =>
    cases hr : d.register (totalMark ++ f.name) with
    | mk registration d1 =>
      have h1 := h.of_register hr
      obtain ⟨hfields, hplanned⟩ := fields_of_register hr
      cases registration with
      | existing | collision => exact h1
      | new ident =>
        have hreads := h1.reads_of_planned (hplanned ▸ hf) ht
        exact h1.withTotal (h.fresh_of_new hr) hreads

end Draft
end CostQuery

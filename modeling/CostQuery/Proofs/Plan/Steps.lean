import CostQuery.Plan.Draft
import CostQuery.Proofs.Plan.Alias
import CostQuery.Proofs.Plan.Registry

/-! What registering a name, and adding a key, a field and a total can do, once for all proofs. -/

namespace CostQuery

/-- The entry of a name that is the first to take its identifier. -/
def OutputColumn.named (name : String) : OutputColumn := ⟨Alias.ofName name, name⟩

/-- The names of the hidden sum and count of an average. -/
def helperNames (name : String) : List String := ["__sum_" ++ name, "__count_" ++ name]

/-- The identifiers of the two, if both names are free. -/
def partIdents (name : String) : String × String :=
  (Alias.ofName ("__sum_" ++ name), Alias.ofName ("__count_" ++ name))

/-- The hidden columns of an average that has its parts. -/
def hiddenColumns (input : AggregateInput) : Option (String × String) → List AggregateField
  | none => []
  | some (sum, count) => [⟨sum, .sum, input, true⟩, ⟨count, .count, input, true⟩]

theorem of_mem_hiddenColumns {input : AggregateInput} {parts : Option (String × String)}
    {c : AggregateField} (hc : c ∈ hiddenColumns input parts) :
    parts ≠ none ∧ c.input = input ∧ c.hidden = true := by
  cases parts with
  | none => exact absurd hc List.not_mem_nil
  | some parts =>
    simp only [hiddenColumns, List.mem_cons, List.not_mem_nil, or_false] at hc
    rcases hc with rfl | rfl <;> exact ⟨nofun, rfl, rfl⟩

namespace Registry

theorem idents_of_entries {r r' : Registry} (names : List String)
    (h : r'.entries = r.entries ++ names.map OutputColumn.named) :
    r'.idents = r.idents ++ names.map Alias.ofName := by
  rw [idents, h, List.map_append, List.map_map]
  rfl

end Registry

namespace Draft
variable {d : Draft}

/-- A free name is registered, and with a taken one the entries stay. -/
theorem register_cases (d : Draft) (name : String) :
    (Alias.ofName name ∉ d.registry.idents ∧ ∃ registry : Registry,
      d.register name = (.new (Alias.ofName name), { d with registry }) ∧
        registry.entries = d.registry.entries ++ [OutputColumn.named name]) ∨
    (Alias.ofName name ∈ d.registry.idents ∧ ∃ registration registry,
      d.register name = (registration, { d with registry }) ∧ registration.newIdent? = none ∧
        registration.ident = Alias.ofName name ∧ registry.entries = d.registry.entries) := by
  rcases d.registry.register_cases name with ⟨hfree, heq⟩ | ⟨htaken, hnone, hident, hsame⟩
  · refine Or.inl ⟨hfree, (d.registry.register name).2, ?_, by rw [heq]; rfl⟩
    rw [register, heq]
  · exact Or.inr ⟨htaken, _, _, rfl, hnone, hident, hsame⟩

/-- A key whose name is free is added, and otherwise nothing is. -/
theorem addKey_cases (d : Draft) (name : String) (source : KeySource) :
    (Alias.ofName name ∉ d.registry.idents ∧ ∃ registry : Registry,
      d.addKey name source = (.new (Alias.ofName name),
        { d with registry, keys := d.keys ++ [⟨Alias.ofName name, source⟩] }) ∧
      registry.entries = d.registry.entries ++ [OutputColumn.named name]) ∨
    (Alias.ofName name ∈ d.registry.idents ∧ ∃ registration registry,
      d.addKey name source = (registration, { d with registry }) ∧
        registration.ident = Alias.ofName name ∧ registry.entries = d.registry.entries) := by
  rcases d.register_cases name with
    ⟨hfree, r, hr, hentries⟩ | ⟨htaken, o, r, hr, ho, hident, hsame⟩
  · exact Or.inl ⟨hfree, r, by simp only [addKey, hr], hentries⟩
  · refine Or.inr ⟨htaken, o, r, ?_, hident, hsame⟩
    cases o with
    | new ident => cases ho
    | existing | collision => simp only [addKey, hr]

/-- With or without a key, the name is registered. -/
theorem addKey_register (d : Draft) (name : String) (source : KeySource) :
    ((d.addKey name source).1, (d.addKey name source).2.registry) = d.registry.register name := by
  rw [addKey, register]
  cases d.registry.register name with
  | mk registration registry => cases registration <;> rfl

/-- A facet column is a group column already, or is added as one. -/
theorem facetKey_draft (groupBy : List ColumnRef) (d : Draft) (c : ColumnRef) :
    (facetKey groupBy d c).2 = d ∨ (facetKey groupBy d c).2 = (d.addColumn c).2 := by
  rw [facetKey]
  split
  · exact Or.inl rfl
  · cases d.addColumn c with
    | mk registration d' => cases registration <;> exact Or.inr rfl

theorem addFacet_draft (groupBy : List ColumnRef) (d : Draft) (c : ColumnRef) :
    ∃ facetKeys, d.addFacet groupBy c = { (facetKey groupBy d c).2 with facetKeys } := by
  rw [addFacet]
  cases facetKey groupBy d c with
  | mk key d' =>
    cases key with
    | none => exact ⟨d'.facetKeys, rfl⟩
    | some ident =>
      simp only
      split <;> exact ⟨_, rfl⟩

/-- What dividing an average gives, by the names taken before: its parts, and the names that are
registered. With the sum's name free and the count's taken, the sum is registered for no column. -/
inductive Division (name : String) (taken : List String) :
    Option (String × String) → List String → Prop
  | whole (sum : Alias.ofName ("__sum_" ++ name) ∉ taken)
      (count : Alias.ofName ("__count_" ++ name) ∉ taken) :
      Division name taken (some (partIdents name)) (helperNames name)
  | halved (sum : Alias.ofName ("__sum_" ++ name) ∉ taken)
      (count : Alias.ofName ("__count_" ++ name) ∈ taken) :
      Division name taken none ["__sum_" ++ name]
  | refused (sum : Alias.ofName ("__sum_" ++ name) ∈ taken) : Division name taken none []

namespace Division
variable {name : String} {taken helpers : List String} {parts : Option (String × String)}

theorem helpers_subset (h : Division name taken parts helpers) : helpers ⊆ helperNames name := by
  cases h <;> simp [helperNames]

theorem parts_eq (h : Division name taken parts helpers) : ∀ x ∈ parts, x = partIdents name := by
  cases h <;> simp

theorem exists_taken (h : Division name taken parts helpers) (hnone : parts = none) :
    ∃ n ∈ helperNames name, Alias.ofName n ∈ taken := by
  cases h with
  | whole => cases hnone
  | halved _ count => exact ⟨_, List.mem_cons_of_mem _ (List.mem_singleton_self _), count⟩
  | refused sum => exact ⟨_, List.mem_cons_self, sum⟩

end Division

/-- An average is divided by the names that are registered. -/
theorem addParts_cases (d : Draft) (name : String) (column : Column) :
    ∃ parts helpers registry,
      d.addParts name column =
        (parts, { d with registry, fields := d.fields ++ hiddenColumns (.column column) parts }) ∧
      registry.entries = d.registry.entries ++ helpers.map OutputColumn.named ∧
      Division name d.registry.idents parts helpers := by
  rcases d.register_cases ("__sum_" ++ name) with
    ⟨hsum, r, hr, hentries⟩ | ⟨htaken, o, r, hr, ho, -, hsame⟩
  · let d1 : Draft := { d with registry := r }
    have hidents : r.idents = d.registry.idents ++ [Alias.ofName ("__sum_" ++ name)] :=
      Registry.idents_of_entries ["__sum_" ++ name] hentries
    have hcount : Alias.ofName ("__count_" ++ name) ∈ r.idents ↔
        Alias.ofName ("__count_" ++ name) ∈ d.registry.idents := by
      rw [hidents, List.mem_append, List.mem_singleton]
      exact or_iff_left (Alias.sum_ne_count name name).symm
    rcases d1.register_cases ("__count_" ++ name) with
      ⟨hfree, r', hr', hentries'⟩ | ⟨htaken, o, r', hr', ho, -, hsame⟩
    · refine ⟨_, _, r', ?_, ?_, .whole hsum fun hmem => hfree (hcount.mpr hmem)⟩
      · simp only [addParts, hr, d1, hr', addInput, hiddenColumns, List.append_assoc]
        rfl
      · rw [hentries', hentries, List.append_assoc]
        rfl
    · refine ⟨none, ["__sum_" ++ name], r', ?_, hsame.trans hentries,
        .halved hsum (hcount.mp htaken)⟩
      cases o with
      | new ident => cases ho
      | existing | collision => simp only [addParts, hr, d1, hr', hiddenColumns, List.append_nil]
  · refine ⟨_, _, r, ?_, by simpa using hsame, .refused htaken⟩
    cases o with
    | new ident => cases ho
    | existing | collision => simp only [addParts, hr, hiddenColumns, List.append_nil]

/-- A field whose name is free gets its column, and an average is divided where that is needed. -/
theorem addField_free (faceted : Bool) (d : Draft) (f : FieldSpec)
    (hfree : Alias.ofName f.name ∉ d.registry.idents) :
    ∃ parts helpers registry,
      d.addField faceted f = { d with
        registry
        fields := d.fields ++
          ⟨Alias.ofName f.name, f.aggregate, f.input, false⟩ :: hiddenColumns f.input parts
        planned := d.planned ++ [⟨f.name, Alias.ofName f.name, f.aggregate, parts⟩] } ∧
      registry.entries =
        d.registry.entries ++ (f.name :: helpers).map OutputColumn.named ∧
      if faceted = true ∧ f.aggregate = .average ∧ f.key ≠ none then
        (∃ column, f.input = .column column) ∧
          Division f.name (d.registry.idents ++ [Alias.ofName f.name]) parts helpers
      else parts = none ∧ helpers = [] := by
  rcases d.register_cases f.name with ⟨-, r, hr, hentries⟩ | ⟨htaken, -⟩
  · by_cases hneeded : faceted = true ∧ f.aggregate = .average ∧ f.key ≠ none
    · simp only [if_pos hneeded]
      obtain ⟨rfl, haverage, hkey⟩ := hneeded
      obtain ⟨key, hk⟩ := Option.ne_none_iff_exists'.mp hkey
      have hinput : f.input = .column (Column.ofKey key) := by
        simp only [FieldSpec.input, haverage, hk]
      let d1 : Draft := { d with
        registry := r, fields := d.fields ++ [⟨Alias.ofName f.name, f.aggregate, f.input, false⟩] }
      obtain ⟨parts, helpers, r', hparts, hentries', hdivision⟩ :=
        d1.addParts_cases f.name (Column.ofKey key)
      have hidents : r.idents = d.registry.idents ++ [Alias.ofName f.name] :=
        Registry.idents_of_entries [f.name] hentries
      refine ⟨parts, helpers, r', ?_, ?_, ⟨_, hinput⟩, hidents ▸ hdivision⟩
      · simp only [haverage, hinput, d1] at hparts
        simp only [addField, hr, addInput, haverage, hk, hinput, hparts, List.append_assoc,
          List.singleton_append]
      · rw [hentries', hentries, List.append_assoc]
        rfl
    · simp only [if_neg hneeded]
      refine ⟨none, [], r, ?_, by simpa using hentries, rfl, rfl⟩
      simp only [addField, hr, addInput, hiddenColumns]
      split
      · next haverage hk => exact absurd ⟨rfl, haverage, hk ▸ nofun⟩ hneeded
      · rfl
  · exact absurd htaken hfree

/-- A field whose name is free gets its column, and an average its parts, where they are needed, if
their names are free too. -/
theorem addField_cases (faceted : Bool) (d : Draft) (f : FieldSpec) :
    (Alias.ofName f.name ∈ d.registry.idents ∧ ∃ registry : Registry,
      d.addField faceted f = { d with registry } ∧ registry.entries = d.registry.entries) ∨
    (Alias.ofName f.name ∉ d.registry.idents ∧ ∃ parts helpers registry,
      d.addField faceted f = { d with
        registry
        fields := d.fields ++
          ⟨Alias.ofName f.name, f.aggregate, f.input, false⟩ :: hiddenColumns f.input parts
        planned := d.planned ++ [⟨f.name, Alias.ofName f.name, f.aggregate, parts⟩] } ∧
      registry.entries =
        d.registry.entries ++ (f.name :: helpers).map OutputColumn.named ∧
      helpers ⊆ helperNames f.name ∧
      (∀ x ∈ parts, x = partIdents f.name) ∧
      (parts ≠ none → ∃ column, f.input = .column column) ∧
      (faceted = true → f.aggregate = .average → f.key ≠ none → parts = none →
        ∃ n ∈ helperNames f.name,
          Alias.ofName n ∈ d.registry.idents ++ [Alias.ofName f.name])) := by
  by_cases hfree : Alias.ofName f.name ∈ d.registry.idents
  · refine Or.inl ⟨hfree, ?_⟩
    rcases d.register_cases f.name with ⟨hnew, -⟩ | ⟨-, o, r, hr, ho, -, hsame⟩
    · exact absurd hfree hnew
    · refine ⟨r, ?_, hsame⟩
      cases o with
      | new ident => cases ho
      | existing | collision => simp only [addField, hr]
  · obtain ⟨parts, helpers, r, hadd, hentries, hdivision⟩ := addField_free faceted d f hfree
    refine Or.inr ⟨hfree, parts, helpers, r, hadd, hentries, ?_⟩
    split at hdivision
    · obtain ⟨hinput, hdivision⟩ := hdivision
      exact ⟨hdivision.helpers_subset, hdivision.parts_eq, fun _ => hinput,
        fun _ _ _ => hdivision.exists_taken⟩
    · next hneeded =>
      obtain ⟨rfl, rfl⟩ := hdivision
      exact ⟨List.nil_subset _, by simp, fun hsome => absurd rfl hsome,
        fun hf haverage hkey => absurd ⟨hf, haverage, hkey⟩ hneeded⟩

/-- A field has its total if its aggregate has one and the name of the total is free. -/
theorem addTotal_cases (d : Draft) (f : PlannedField) :
    (∃ registry : Registry, d.addTotal f = { d with registry } ∧
      registry.entries = d.registry.entries ∧
      (f.total? ≠ none → Alias.ofName (totalMark ++ f.name) ∈ d.registry.idents)) ∨
    ∃ total registry, f.total? = some total ∧
      d.addTotal f = { d with
        registry
        totals := d.totals ++ [⟨Alias.ofName (totalMark ++ f.name), total⟩]
        totalOf := d.totalOf ++ [(f.ident, Alias.ofName (totalMark ++ f.name))] } ∧
      registry.entries = d.registry.entries ++ [OutputColumn.named (totalMark ++ f.name)] := by
  cases ht : f.total? with
  | none => exact Or.inl ⟨d.registry, by simp only [addTotal, ht], rfl, by simp⟩
  | some total =>
    rcases d.register_cases (totalMark ++ f.name) with
      ⟨-, r, hr, hentries⟩ | ⟨htaken, o, r, hr, ho, -, hsame⟩
    · exact Or.inr ⟨total, r, rfl, by simp only [addTotal, ht, hr], hentries⟩
    · refine Or.inl ⟨r, ?_, hsame, fun _ => htaken⟩
      cases o with
      | new ident => cases ho
      | existing | collision => simp only [addTotal, ht, hr]

end Draft
end CostQuery

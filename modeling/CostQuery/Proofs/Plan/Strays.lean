import CostQuery.Proofs.Plan.Kept

/-! Names registered for no column. An average whose count's name is taken, and whose sum's name is
not, leaves the sum registered; nothing else does so. -/

namespace CostQuery

def sumIdent (name : String) : String := Alias.ofName ("__sum_" ++ name)

def countIdent (name : String) : String := Alias.ofName ("__count_" ++ name)

theorem Registry.collisions_register (r : Registry) (name : String) :
    r.collisions <+: (r.register name).2.collisions := by
  rw [register]
  split
  · exact List.prefix_refl _
  · split
    · exact List.prefix_refl _
    · exact List.prefix_append _ _

namespace Draft
variable {d d' : Draft} {name ident : String} {specs : List FieldSpec}

/-! One average. -/

theorem collisions_of_register {registration : Registration}
    (hr : d.register name = (registration, d')) :
    d.registry.collisions <+: d'.registry.collisions := by
  obtain ⟨-, rfl⟩ := register_eq hr
  exact d.registry.collisions_register name

theorem collisions_addParts (d : Draft) (name : String) (column : Column) :
    d.registry.collisions <+: (d.addParts name column).2.registry.collisions := by
  rw [addParts]
  cases hr : d.register ("__sum_" ++ name) with
  | mk registration d1 =>
    have hsum := collisions_of_register hr
    cases registration with
    | existing | collision => exact hsum
    | new sum =>
      dsimp only
      cases hr' : d1.register ("__count_" ++ name) with
      | mk registration d2 =>
        have hcount := hsum.trans (collisions_of_register hr')
        cases registration <;> exact hcount

/-- An average left undivided changes no column, and registers the name of its sum if that was
free. -/
theorem addParts_none (d : Draft) (name : String) (column : Column) :
    ((d.addParts name column).1 = none ↔
      sumIdent name ∈ d.registry.idents ∨ countIdent name ∈ d.registry.idents) ∧
    ((d.addParts name column).1 = none →
      (d.addParts name column).2.fields = d.fields ∧
      d.registry.collisions <+: (d.addParts name column).2.registry.collisions ∧
      (d.addParts name column).2.registry.entries = d.registry.entries ++
        if sumIdent name ∈ d.registry.idents then []
        else [OutputColumn.named ("__sum_" ++ name)]) := by
  have hcollisions := d.collisions_addParts name column
  obtain ⟨parts, helpers, r, hadd, hentries, hdivision⟩ := d.addParts_cases name column
  rw [hadd] at hcollisions ⊢
  cases hdivision with
  | whole sum count => simp [sumIdent, countIdent, sum, count]
  | halved sum count =>
    refine ⟨iff_of_true rfl (Or.inr count), fun _ => ⟨List.append_nil _, hcollisions, ?_⟩⟩
    rw [sumIdent, if_neg sum]
    exact hentries
  | refused sum =>
    refine ⟨iff_of_true rfl (Or.inl sum), fun _ => ⟨List.append_nil _, hcollisions, ?_⟩⟩
    rw [sumIdent, if_pos sum]
    exact hentries

/-! All the names of a plan. -/

/-- The sum of an average whose count's name another column shown has. -/
def Strays (d : Draft) (ident : String) : Prop :=
  ∃ p ∈ d.planned, p.aggregate = .average ∧ ident = sumIdent p.name ∧
    countIdent p.name ∈ d.shownIdents

/-- Every name is that of a column or a stray one, and the sums of all averages have names. -/
structure Accounted (d : Draft) : Prop where
  columns : ∀ ident ∈ d.registry.idents, ident ∈ d.columns ∨ d.Strays ident
  summed : ∀ p ∈ d.planned, p.aggregate = .average → sumIdent p.name ∈ d.registry.idents

theorem KeysOnly.accounted (hk : d.KeysOnly) (h : d.Bare) : d.Accounted where
  columns _ hident := Or.inl (List.mem_append_left _ (hk hident))
  summed _ hp := absurd (h.planned ▸ hp) List.not_mem_nil

/-- The keys are laid, and the rest is added to. -/
structure Grows (d d' : Draft) : Prop where
  keys : d'.keys = d.keys
  fields : d.fields ⊆ d'.fields
  planned : d.planned ⊆ d'.planned
  totals : d.totals ⊆ d'.totals

theorem Grows.columns (h : Grows d d') : d.columns ⊆ d'.columns := by
  intro ident hident
  simp only [Draft.columns, keyIdents, h.keys, List.mem_append] at hident ⊢
  exact hident.imp_right (Or.imp (fun hmem => List.map_subset _ h.fields hmem)
    fun hmem => List.map_subset _ h.totals hmem)

theorem Grows.strays (h : Grows d d') (hstray : d.Strays ident) : d'.Strays ident := by
  obtain ⟨p, hp, haverage, hident, hshown⟩ := hstray
  refine ⟨p, h.planned hp, haverage, hident, ?_⟩
  simp only [shownIdents, keyIdents, h.keys, List.mem_append] at hshown ⊢
  exact hshown.imp_right fun hmem => List.map_subset _ h.planned hmem

/-- New names are accounted for where they are registered. -/
theorem Accounted.grow (h : d.Accounted) (hgrows : Grows d d') (names : List String)
    (hentries : d'.registry.entries = d.registry.entries ++ names.map OutputColumn.named)
    (hnames : ∀ name ∈ names, Alias.ofName name ∈ d'.columns ∨ d'.Strays (Alias.ofName name))
    (hsummed : ∀ p ∈ d'.planned, p ∈ d.planned ∨
      (p.aggregate = .average → sumIdent p.name ∈ d'.registry.idents)) : d'.Accounted := by
  have hidents := Registry.idents_of_entries names hentries
  constructor
  · intro ident hident
    rcases List.mem_append.mp (hidents ▸ hident) with hident | hident
    · exact (h.columns ident hident).imp (hgrows.columns ·) hgrows.strays
    · obtain ⟨name, hname, rfl⟩ := List.mem_map.mp hident
      exact hnames name hname
  · intro p hp haverage
    rcases hsummed p hp with hold | hnew
    · exact hidents ▸ List.mem_append_left _ (h.summed p hold haverage)
    · exact hnew haverage

theorem Accounted.withRegistry (h : d.Accounted) {r : Registry}
    (hsame : r.entries = d.registry.entries) : Accounted { d with registry := r } :=
  h.grow ⟨rfl, List.Subset.refl _, List.Subset.refl _, List.Subset.refl _⟩ [] (by simpa using hsame)
    (by simp) fun _ hp => Or.inl hp

/-- The names registered for a field are those of its columns, but for a sum without a count. -/
theorem Accounted.addField (h : d.Accounted) (ht : d.Traced specs) {f : FieldSpec}
    (hkey : f.aggregate = .average → f.key ≠ none) : (d.addField true f).Accounted := by
  by_cases hfree : Alias.ofName f.name ∈ d.registry.idents
  · rcases d.addField_cases true f with ⟨-, r, hadd, hsame⟩ | ⟨hnew, -⟩
    · rw [hadd]
      exact h.withRegistry hsame
    · exact absurd hfree hnew
  · obtain ⟨parts, helpers, r, hadd, hentries, hdivision⟩ := addField_free true d f hfree
    have hidents := Registry.idents_of_entries _ hentries
    rw [hadd]
    refine h.grow ⟨rfl, List.subset_append_left _ _, List.subset_append_left _ _,
      List.Subset.refl _⟩ (f.name :: helpers) hentries
      (List.forall_mem_cons.mpr ⟨Or.inl ?_, fun name hname => ?_⟩) fun p hp => ?_
    · simp [Draft.columns, fieldIdents]
    · split at hdivision
      · next hneeded =>
        obtain ⟨-, hdivision⟩ := hdivision
        cases hdivision with
        | whole =>
          refine Or.inl ?_
          simp only [helperNames, List.mem_cons, List.not_mem_nil, or_false] at hname
          rcases hname with rfl | rfl <;>
            simp [Draft.columns, fieldIdents, hiddenColumns, partIdents]
        | halved _ count =>
          obtain rfl := List.mem_singleton.mp hname
          refine Or.inr ⟨_, List.mem_append_right _ (List.mem_singleton_self _), hneeded.2.1,
            rfl, ?_⟩
          rw [shownIdents_append]
          refine List.mem_append.mpr ((List.mem_append.mp count).imp_left ?_)
          exact ht.shown_of_helper hfree (List.mem_cons_of_mem _ (List.mem_singleton_self _))
        | refused => cases hname
      · obtain ⟨-, rfl⟩ := hdivision
        cases hname
    · rcases List.mem_append.mp hp with hp | hp
      · exact Or.inl hp
      · obtain rfl := List.mem_singleton.mp hp
        refine Or.inr fun haverage => ?_
        rw [if_pos ⟨rfl, haverage, hkey haverage⟩] at hdivision
        obtain ⟨-, hdivision⟩ := hdivision
        change sumIdent f.name ∈ r.idents
        rw [hidents]
        cases hdivision with
        | whole | halved => simp [helperNames, sumIdent]
        | refused sum => simpa [sumIdent] using sum

theorem Accounted.addTotal (h : d.Accounted) (p : PlannedField) : (d.addTotal p).Accounted := by
  rcases d.addTotal_cases p with ⟨r, hadd, hsame, -⟩ | ⟨t, r, -, hadd, hentries⟩ <;> rw [hadd]
  · exact h.withRegistry hsame
  · refine h.grow ⟨rfl, List.Subset.refl _, List.Subset.refl _, List.subset_append_left _ _⟩
      [totalMark ++ p.name] hentries (List.forall_mem_singleton.mpr (Or.inl ?_))
      fun _ hp => Or.inl hp
    simp [Draft.columns, totalIdents]

/-- The names of a plan, no more and no less. -/
theorem Accounted.mem_idents (h : d.Accounted) (hd : d.Scoped) :
    ident ∈ d.registry.idents ↔ ident ∈ d.columns ∨ d.Strays ident := by
  refine ⟨h.columns ident, ?_⟩
  rintro (hmem | ⟨p, hp, haverage, rfl, -⟩)
  · exact hd.registered hmem
  · exact h.summed p hp haverage

end Draft

namespace AnalyzeQuery
variable {q : AnalyzeQuery}

theorem accounted_draft (hfaceted : q.isFaceted = true)
    (hkeys : ∀ f ∈ q.fields, f.aggregate ≠ .count → f.key ≠ none) : q.draft.Accounted := by
  have hfields : q.fieldDraft.Traced q.fields ∧ q.fieldDraft.Accounted := by
    refine List.foldlRecOn (motive := fun d : Draft => d.Traced q.fields ∧ d.Accounted) q.fields
      (Draft.addField true) ⟨bare_selects.1.traced bare_selects.2.keys_only,
        bare_selects.2.keys_only.accounted bare_selects.1⟩ fun d h f hf => ?_
    have hkey (haverage : f.aggregate = .average) : f.key ≠ none :=
      hkeys f hf (by rw [haverage]; decide)
    exact ⟨h.1.addField hf hkey, h.2.addField h.1 hkey⟩
  have hdraft : q.draft = q.fieldDraft.planned.foldl Draft.addTotal q.fieldDraft := by
    simp only [draft, draftFields, fieldDraft, hfaceted, if_true]
  rw [hdraft]
  exact List.foldlRecOn _ Draft.addTotal hfields.2 fun _ h p _ => h.addTotal p

/-- Stray names are those of fields that the plan shows. -/
theorem strays_iff (hfaceted : q.isFaceted = true)
    (hkeys : ∀ f ∈ q.fields, f.aggregate ≠ .count → f.key ≠ none) {ident : String} :
    q.draft.Strays ident ↔ ∃ f ∈ q.fields, f.column ∈ q.draft.fields ∧
      OutputColumn.named f.name ∈ q.draft.outputs (q.draft.visible true) ∧
      f.aggregate = .average ∧ ident = sumIdent f.name ∧
      countIdent f.name ∈ (Group.mk q.draft.keys q.draft.fields).shownIdents := by
  have htotalled := draft_totalled hfaceted hkeys
  have htraced := traced_fieldDraft hkeys
  have hshown {ident : String} : ident ∈ q.draft.shownIdents ↔
      ident ∈ (Group.mk q.draft.keys q.draft.fields).shownIdents := by
    rw [htotalled.keys, htotalled.fields, htraced.mem_shownIdents scoped_fieldDraft,
      Draft.shownIdents, Draft.shownIdents, Draft.keyIdents, Draft.plannedIdents, htotalled.keys,
      htotalled.planned]
    rfl
  constructor
  · rintro ⟨p, hp, haverage, rfl, hcount⟩
    obtain ⟨f, hf, hserves, hnamed⟩ :=
      exists_field_of_planned hfaceted hkeys (htotalled.planned ▸ hp)
    refine ⟨f, hf, hserves.shown, hnamed, hserves.aggregate ▸ haverage, ?_, ?_⟩
    · rw [hserves.name]
    · exact hshown.mp (hserves.name ▸ hcount)
  · rintro ⟨f, -, hcolumn, hnamed, haverage, rfl, hcount⟩
    obtain ⟨p, hp, hserves⟩ := htraced.exists_planned scoped_fieldDraft
      q.draft_scoped.registry_valid htotalled.entries (htotalled.fields ▸ hcolumn)
      (List.mem_of_mem_filter hnamed)
    refine ⟨p, htotalled.planned ▸ hp, hserves.aggregate.trans haverage, ?_, ?_⟩
    · rw [hserves.name]
    · exact hserves.name ▸ hshown.mpr hcount

end AnalyzeQuery

/-- The columns of the groups and the totals over them. -/
def Group.columnIdents (g : Group) (facet : Facet) : List String :=
  g.keys.map (·.ident) ++ (g.fields.map (·.ident) ++ facet.totals.map (·.ident))

/-- An average in the plan that has no parts, and whose sum goes by a name of its own: another
column shown has the name of its count. -/
structure FieldSpec.HalfNamed (f : FieldSpec) (plan : AnalyzePlan) (g : Group) (facet : Facet) :
    Prop where
  keeps : plan.Keeps g f
  average : f.aggregate = .average
  count : countIdent f.name ∈ g.shownIdents
  sum : sumIdent f.name ∉ g.columnIdents facet

/-- Dividing an average changes nothing but collisions where it fails, unless only the name of the
count is taken; then the name of the sum is registered for no column. In the end every name is
that of a column but for the sums of such averages. -/
theorem AnalyzePlan.names_accounted {limits : RangeLimits} {r : Request} {q : AnalyzeQuery}
    {plan : AnalyzePlan} (hq : AnalyzeQuery.ofRequest limits r = .ok q)
    (hfaceted : q.fieldGroup ≠ []) (h : AnalyzePlan.ofQuery q = .ok plan) :
    (∀ (d : Draft) (name : String) (column : Column),
      ((d.addParts name column).1 = none ↔
        sumIdent name ∈ d.registry.idents ∨ countIdent name ∈ d.registry.idents) ∧
      ((d.addParts name column).1 = none →
        (d.addParts name column).2.fields = d.fields ∧
        d.registry.collisions <+: (d.addParts name column).2.registry.collisions ∧
        (d.addParts name column).2.registry.entries = d.registry.entries ++
          if sumIdent name ∈ d.registry.idents then []
          else [OutputColumn.named ("__sum_" ++ name)])) ∧
    ∃ g facet, plan.group? = some g ∧ plan.facet? = some facet ∧
      ∀ ident, ident ∈ q.draft.registry.idents ↔ ident ∈ g.columnIdents facet ∨
        ∃ f ∈ q.fields, f.HalfNamed plan g facet ∧ ident = sumIdent f.name := by
  have hkeys : ∀ f ∈ q.fields, f.aggregate ≠ .count → f.key ≠ none :=
    fun f hf hcount => AnalyzeQuery.key_of_ofRequest hq hf hcount
  have hf : q.isFaceted = true := by simpa [AnalyzeQuery.isFaceted] using hfaceted
  refine ⟨fun d name column => d.addParts_none name column, ⟨q.draft.keys, q.draft.fields⟩,
    q.draft.facet, group_of_ofQuery h, ?_, fun ident => ?_⟩
  · obtain ⟨-, rfl⟩ := ofQuery_ok h
    rw [facet?, q.facet_stages, if_pos hf]
  obtain ⟨-, rfl⟩ := ofQuery_ok h
  have hcolumns : (Group.mk q.draft.keys q.draft.fields).columnIdents q.draft.facet =
    q.draft.columns := rfl
  rw [(AnalyzeQuery.accounted_draft hf hkeys).mem_idents q.draft_scoped,
    AnalyzeQuery.strays_iff hf hkeys, hcolumns]
  constructor
  · rintro (hmem | ⟨f, hfield, hcolumn, hnamed, haverage, rfl, hcount⟩)
    · exact Or.inl hmem
    · by_cases hsum : sumIdent f.name ∈ q.draft.columns
      · exact Or.inl hsum
      · exact Or.inr ⟨f, hfield, ⟨⟨hcolumn, hf ▸ hnamed⟩, haverage, hcount, hsum⟩, rfl⟩
  · rintro (hmem | ⟨f, hfield, hhalf, rfl⟩)
    · exact Or.inl hmem
    · exact Or.inr ⟨f, hfield, hhalf.keeps.column, hf ▸ hhalf.keeps.named, hhalf.average, rfl,
        hhalf.count⟩

/-- The mean has its sum and count, and no name is left over. -/
theorem regionQuery_accounted : ∃ plan g facet, AnalyzePlan.ofQuery regionQuery = .ok plan ∧
    plan.group? = some g ∧ plan.facet? = some facet ∧
    ∀ ident ∈ regionQuery.draft.registry.idents, ident ∈ g.columnIdents facet := by
  have h : AnalyzePlan.ofQuery regionQuery = .ok _ := rfl
  obtain ⟨-, g, facet, hg, hfacet, hidents⟩ :=
    AnalyzePlan.names_accounted ofRequest_regionRequest (List.cons_ne_nil _ _) h
  obtain rfl := Option.some.inj hg
  obtain rfl := Option.some.inj hfacet
  refine ⟨_, _, _, h, rfl, rfl, fun ident hident => ?_⟩
  rcases (hidents ident).mp hident with hmem | ⟨f, hf, hhalf, -⟩
  · exact hmem
  · have hnone : ∀ f ∈ regionQuery.fields,
        countIdent f.name ∉
          (Group.mk regionQuery.draft.keys regionQuery.draft.fields).shownIdents := by
      decide
    exact absurd hhalf.count (hnone f hf)

/-- A group column under the name of the count of a mean, and a field under that of its sum. -/
def halvedRequest : Request :=
  { regionRequest with
    groupBy := [.obj [("key", .str "provider"), ("name", .str "__count_Mean")]]
    fields := [("Mean", { operator := some "average", key := some "cost" }),
      ("__sum_Mean", { operator := some "sum", key := some "usage" })] }

def halvedQuery : AnalyzeQuery :=
  { regionQuery with
    groupBy := [⟨"provider", "__count_Mean"⟩]
    fields := [⟨"Mean", .average, some "cost", []⟩, ⟨"__sum_Mean", .sum, some "usage", []⟩] }

/-- The mean is left without its parts, and the sum of the mean keeps its name without a column, so
that the field of that name is left out. -/
theorem halvedRequest_stray :
    ∃ plan g facet d f, AnalyzeQuery.ofRequest {} halvedRequest = .ok halvedQuery ∧
      halvedQuery.fieldGroup ≠ [] ∧ AnalyzePlan.ofQuery halvedQuery = .ok plan ∧
      plan.group? = some g ∧ plan.facet? = some facet ∧
      d = (halvedQuery.draftKeys.register "Mean").2.addInput
        (FieldSpec.column ⟨"Mean", .average, some "cost", []⟩) ∧
      (d.addParts "Mean" (Column.ofKey "cost")).1 = none ∧
      "__sum_Mean" ∉ d.registry.idents ∧
      "__sum_Mean" ∈ (d.addParts "Mean" (Column.ofKey "cost")).2.registry.idents ∧
      "__sum_Mean" ∈ halvedQuery.draft.registry.idents ∧
      "__sum_Mean" ∉ g.columnIdents facet ∧
      f ∈ halvedQuery.fields ∧ f.name = "__sum_Mean" ∧ ¬ plan.Keeps g f := by
  refine ⟨_, _, _, _, ⟨"__sum_Mean", .sum, some "usage", []⟩, rfl, List.cons_ne_nil _ _, rfl, rfl,
    rfl, rfl, rfl, by decide, by decide, by decide, by decide,
    List.mem_cons_of_mem _ List.mem_cons_self, rfl, fun hkeeps => ?_⟩
  exact absurd (List.mem_map_of_mem (f := (·.ident)) hkeeps.column) (by decide)

end CostQuery

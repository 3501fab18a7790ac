import CostQuery.Proofs.Plan.FacetKeys

/-! The names of result columns are those that the query gives. -/

namespace CostQuery

/-- The names under which a query asks for columns: the keys and fields, and the totals of the
fields. -/
def AnalyzeQuery.columnNames (q : AnalyzeQuery) : List String :=
  "date" :: ((q.groupBy ++ q.fieldGroup).map (·.name) ++ (q.select.map Prod.fst ++
    (q.fields.map (·.name) ++ q.fields.map fun f => totalMark ++ f.name)))

namespace Draft
variable {d : Draft} {groupBy : List ColumnRef} {names fields : List String} {ident : String}

/-- The columns that can be shown. -/
def resultIdents (d : Draft) : List String := d.keyIdents ++ (d.plannedIdents ++ d.totalIdents)

/-- The identifier is held by one of the names. -/
def HeldBy (names : List String) (d : Draft) (ident : String) : Prop :=
  ∃ name ∈ names, ⟨ident, name⟩ ∈ d.registry.entries

/-- The columns that can be shown have names of the list, and the fields have names of theirs. -/
structure Named (names fields : List String) (d : Draft) : Prop where
  columns : ∀ ident ∈ d.resultIdents, d.HeldBy names ident
  planned : ∀ p ∈ d.planned, p.name ∈ fields

theorem named_empty : Named names fields {} where
  columns _ h := absurd h List.not_mem_nil
  planned _ h := absurd h List.not_mem_nil

theorem Named.withRegistry (h : d.Named names fields) {registry : Registry}
    (hsame : registry.entries = d.registry.entries) :
    Named names fields { d with registry } := by
  refine ⟨fun ident hident => ?_, h.planned⟩
  rw [HeldBy, hsame]
  exact h.columns ident hident

/-- Names stay registered, so that only columns which are new are to be looked at. -/
theorem Named.grow (h : d.Named names fields) {d' : Draft} (more : List String)
    (hentries : d'.registry.entries = d.registry.entries ++ more.map OutputColumn.named)
    (hnew : ∀ ident ∈ d'.resultIdents, ident ∈ d.resultIdents ∨
      ∃ name ∈ more, ident = Alias.ofName name ∧ name ∈ names)
    (hplanned : ∀ p ∈ d'.planned, p ∈ d.planned ∨ p.name ∈ fields) :
    d'.Named names fields := by
  refine ⟨fun ident hident => ?_, fun p hp => (hplanned p hp).elim (h.planned p) id⟩
  rw [HeldBy, hentries]
  rcases hnew ident hident with hold | ⟨name, hname, rfl, hgiven⟩
  · obtain ⟨name, hname, hentry⟩ := h.columns ident hold
    exact ⟨name, hname, List.mem_append_left _ hentry⟩
  · exact ⟨name, hgiven, List.mem_append_right _ (List.mem_map_of_mem hname)⟩

theorem Named.addKey (h : d.Named names fields) {name : String} (hname : name ∈ names)
    (source : KeySource) : (d.addKey name source).2.Named names fields := by
  rcases d.addKey_cases name source with
    ⟨-, r, hadd, hentries⟩ | ⟨-, o, r, hadd, -, hsame⟩ <;> rw [hadd]
  · refine h.grow [name] hentries (fun ident hident => ?_) fun p hp => Or.inl hp
    simp only [resultIdents, keyIdents, plannedIdents, totalIdents, List.map_append,
      List.mem_append, List.map_singleton, List.mem_singleton] at hident ⊢
    rcases hident with (hkey | rfl) | hrest
    · exact Or.inl (Or.inl hkey)
    · exact Or.inr ⟨name, rfl, rfl, hname⟩
    · exact Or.inl (Or.inr hrest)
  · exact h.withRegistry hsame

theorem Named.addFacet (h : d.Named names fields) {c : ColumnRef} (hc : c.name ∈ names) :
    (d.addFacet groupBy c).Named names fields := by
  have hcolumn : (d.addColumn c).2.Named names fields := h.addKey hc _
  obtain ⟨facetKeys, heq⟩ := d.addFacet_draft groupBy c
  rw [heq]
  rcases d.facetKey_draft groupBy c with hd | hd <;> rw [hd]
  · exact ⟨h.columns, h.planned⟩
  · exact ⟨hcolumn.columns, hcolumn.planned⟩

theorem Named.addField (h : d.Named names fields) (faceted : Bool) {f : FieldSpec}
    (hf : f.name ∈ names) (hfield : f.name ∈ fields) :
    (d.addField faceted f).Named names fields := by
  rcases addField_cases faceted d f with ⟨-, r, heq, hsame⟩ |
    ⟨-, parts, helpers, r, heq, hentries, -⟩ <;> rw [heq]
  · exact h.withRegistry hsame
  · refine h.grow (f.name :: helpers) hentries (fun ident hident => ?_) fun p hp => ?_
    · simp only [resultIdents, keyIdents, plannedIdents, totalIdents, List.map_append,
        List.mem_append, List.map_singleton, List.mem_singleton] at hident ⊢
      rcases hident with hkey | (hplanned | rfl) | htotal
      · exact Or.inl (Or.inl hkey)
      · exact Or.inl (Or.inr (Or.inl hplanned))
      · exact Or.inr ⟨f.name, List.mem_cons_self, rfl, hf⟩
      · exact Or.inl (Or.inr (Or.inr htotal))
    · refine (List.mem_append.mp hp).imp_right fun hp => ?_
      rw [List.mem_singleton.mp hp]
      exact hfield

theorem Named.addTotal (h : d.Named names fields) {f : PlannedField} (hf : f ∈ d.planned)
    (htotals : ∀ name ∈ fields, totalMark ++ name ∈ names) :
    (d.addTotal f).Named names fields := by
  rcases d.addTotal_cases f with ⟨r, heq, hsame, -⟩ | ⟨t, r, -, heq, hentries⟩ <;> rw [heq]
  · exact h.withRegistry hsame
  · refine h.grow [totalMark ++ f.name] hentries (fun ident hident => ?_) fun p hp => Or.inl hp
    simp only [resultIdents, keyIdents, plannedIdents, totalIdents, List.map_append,
      List.mem_append, List.map_singleton, List.mem_singleton] at hident ⊢
    rcases hident with hkey | hplanned | htotal | rfl
    · exact Or.inl (Or.inl hkey)
    · exact Or.inl (Or.inr (Or.inl hplanned))
    · exact Or.inl (Or.inr (Or.inr htotal))
    · exact Or.inr ⟨_, rfl, rfl, htotals _ (h.planned f hf)⟩

end Draft

namespace AnalyzeQuery
variable (q : AnalyzeQuery)

theorem named_draft : q.draft.Named q.columnNames (q.fields.map (·.name)) := by
  have hcolumn : ∀ c ∈ q.groupBy ++ q.fieldGroup, c.name ∈ q.columnNames := fun c hc =>
    List.mem_cons_of_mem _ (List.mem_append_left _ (List.mem_map_of_mem hc))
  have hselect : ∀ s ∈ q.select, s.1 ∈ q.columnNames := fun s hs =>
    List.mem_cons_of_mem _ (List.mem_append_right _ (List.mem_append_left _
      (List.mem_map_of_mem hs)))
  have hfield : ∀ f ∈ q.fields, f.name ∈ q.columnNames := fun f hf =>
    List.mem_cons_of_mem _ (List.mem_append_right _ (List.mem_append_right _
      (List.mem_append_left _ (List.mem_map_of_mem hf))))
  have htotal : ∀ name ∈ q.fields.map (·.name), totalMark ++ name ∈ q.columnNames := by
    intro name hname
    obtain ⟨f, hf, rfl⟩ := List.mem_map.mp hname
    exact List.mem_cons_of_mem _ (List.mem_append_right _ (List.mem_append_right _
      (List.mem_append_right _ (List.mem_map_of_mem (f := fun f => totalMark ++ f.name) hf))))
  have hkeys : q.draftKeys.Named q.columnNames (q.fields.map (·.name)) := by
    refine q.draftKeys_run (q.groupDraft_run Draft.named_empty ?_ ?_) ?_
    · exact fun d p h => h.addKey List.mem_cons_self _
    · exact fun d c hc h => h.addKey (hcolumn c (List.mem_append_left _ hc)) _
    · exact fun d c hc h => h.addFacet (hcolumn c (List.mem_append_right _ hc))
  exact q.draftFields_run hkeys (fun _ s hs h => h.addKey (hselect s hs) _)
    (fun _ f hf h => h.addField q.isFaceted (hfield f hf) (List.mem_map_of_mem hf))
    fun _ _ f hf h => h.addTotal hf htotal

end AnalyzeQuery

namespace AnalyzePlan
variable {q : AnalyzeQuery} {plan : AnalyzePlan}

/-- The outputs of a plan hold their identifiers as a registry does. -/
theorem outputs_valid (h : ofQuery q = .ok plan) : Registry.Valid { entries := plan.outputs } := by
  obtain ⟨-, rfl⟩ := ofQuery_ok h
  have hvalid := q.draft_scoped.registry_valid
  constructor
  · intro e he
    exact hvalid.made e (List.mem_of_mem_filter he)
  · exact hvalid.idents_nodup.sublist (List.filter_sublist.map _)

theorem name_of_outputs (h : ofQuery q = .ok plan) {e : OutputColumn} (he : e ∈ plan.outputs) :
    e.name ∈ q.columnNames := by
  obtain ⟨-, rfl⟩ := ofQuery_ok h
  obtain ⟨hentry, hshown⟩ := List.mem_filter.mp he
  simp only [Bool.or_eq_true, List.contains_iff_mem] at hshown
  have hresult : e.ident ∈ q.draft.resultIdents := by
    rcases hshown with hvisible | hfacet
    · rcases Draft.visible_cases hvisible with hkey | hplanned | htotal
      · exact List.mem_append_left _ hkey
      · exact List.mem_append_right _ (List.mem_append_left _ hplanned)
      · exact List.mem_append_right _ (List.mem_append_right _ htotal)
    · exact List.mem_append_left _ (q.draft_scoped.facetKeys_subset hfacet)
  obtain ⟨name, hname, hheld⟩ := q.named_draft.columns e.ident hresult
  rw [q.draft_scoped.registry_valid.eq_of_ident hentry hheld rfl]
  exact hname

end AnalyzePlan
end CostQuery

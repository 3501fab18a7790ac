import CostQuery.Proofs.Plan.Kept
import CostQuery.Proofs.Plan.Sources
import CostQuery.Proofs.Plan.Uses
import Mathlib.Data.List.Induction

/-! Which columns back the facet keys of a plan: of the keys of one name, the first. -/

namespace CostQuery

namespace Registry
variable {r : Registry} {name ident : String} {e : OutputColumn}

theorem Valid.eq_of_ident (h : r.Valid) {e' : OutputColumn} (he : e ∈ r.entries)
    (he' : e' ∈ r.entries) (heq : e.ident = e'.ident) : e = e' :=
  List.inj_on_of_nodup_map h.idents_nodup he he' heq

/-- A name is found under its identifier, if it is the one that holds it. -/
theorem Valid.identOf_iff (h : r.Valid) : r.identOf? name = some ident ↔
    ident = Alias.ofName name ∧ r.ownerOf? ident = some ⟨ident, name⟩ := by
  rw [identOf?, Option.map_eq_some_iff]
  constructor
  · rintro ⟨e, he, rfl⟩
    have hmem := List.mem_of_find?_eq_some he
    have hname : e.name = name := by simpa using List.find?_some he
    have hsome : (r.ownerOf? e.ident).isSome := by
      rw [← Option.ne_none_iff_isSome, Ne, ownerOf_none, not_not]
      exact List.mem_map_of_mem hmem
    obtain ⟨owner, howner⟩ := Option.isSome_iff_exists.mp hsome
    obtain ⟨hmem', hident⟩ := ident_of_ownerOf howner
    rw [howner, h.eq_of_ident hmem' hmem hident, ← hname]
    exact ⟨h.made e hmem, rfl⟩
  · rintro ⟨-, howner⟩
    obtain ⟨hmem, -⟩ := ident_of_ownerOf howner
    have hsome : (r.entries.find? fun e => e.name = name).isSome :=
      List.find?_isSome.mpr ⟨_, hmem, by simp⟩
    obtain ⟨e, he⟩ := Option.isSome_iff_exists.mp hsome
    have hname : e.name = name := by simpa using List.find?_some he
    refine ⟨e, he, ?_⟩
    rw [h.made e (List.mem_of_find?_eq_some he), hname]
    exact (h.made _ hmem).symm

/-- Registering tells whether the name holds its identifier afterwards. -/
theorem Valid.identOf_register (h : r.Valid) (name : String) :
    (r.register name).2.identOf? name =
      match (r.register name).1 with
      | .new ident | .existing ident => some ident
      | .collision _ => none := by
  have hvalid := h.register name
  cases ho : r.ownerOf? (Alias.ofName name) with
  | none =>
    have hreg : r.register name = (.new (Alias.ofName name),
        { r with entries := r.entries ++ [⟨Alias.ofName name, name⟩] }) := by
      simp only [Registry.register, ho]
    rw [hreg] at hvalid ⊢
    refine hvalid.identOf_iff.mpr ⟨rfl, ?_⟩
    rw [ownerOf?] at ho ⊢
    rw [List.find?_append, ho, List.find?_singleton, decide_eq_true rfl]
    rfl
  | some owner =>
    obtain ⟨ident, ownerName⟩ := owner
    obtain ⟨-, rfl⟩ := ident_of_ownerOf ho
    by_cases hname : ownerName = name
    · subst hname
      have hreg : r.register ownerName = (.existing (Alias.ofName ownerName), r) := by
        simp only [Registry.register, ho, if_true]
      rw [hreg]
      exact h.identOf_iff.mpr ⟨rfl, ho⟩
    · simp only [Registry.register, ho, if_neg hname]
      refine Option.eq_none_iff_forall_ne_some.mpr fun ident hident => hname ?_
      obtain ⟨rfl, howner⟩ := h.identOf_iff.mp hident
      rw [ho] at howner
      exact (OutputColumn.mk.inj (Option.some.inj howner)).2

end Registry

/-- A name under which a key is laid, and where the key comes from. -/
abbrev KeyRef := String × KeySource

def KeyRef.use (ref : KeyRef) : NameUse := (ref.1, .key ref.2)

def KeyRef.hasIdent (ident : String) (ref : KeyRef) : Bool := Alias.ofName ref.1 = ident

theorem firstUse?_refs (refs : List KeyRef) (ident : String) :
    firstUse? (refs.map KeyRef.use) ident =
      (refs.find? (KeyRef.hasIdent ident)).map KeyRef.use := by
  rw [firstUse?, List.find?_map]
  rfl

/-- Of the names with its identifier the name is the first, and this is the source of its key. -/
def Backs (refs : List KeyRef) (name : String) (source : KeySource) : Prop :=
  refs.find? (KeyRef.hasIdent (Alias.ofName name)) = some (name, source)

/-- Names that come later change nothing. -/
theorem backs_append {refs more : List KeyRef} {name : String} {source : KeySource}
    (h : name ∈ refs.map Prod.fst) : Backs (refs ++ more) name source ↔ Backs refs name source := by
  obtain ⟨ref, href, rfl⟩ := List.mem_map.mp h
  have hsome : (refs.find? (KeyRef.hasIdent (Alias.ofName ref.1))).isSome :=
    List.find?_isSome.mpr ⟨ref, href, by simp [KeyRef.hasIdent]⟩
  obtain ⟨first, hfirst⟩ := Option.isSome_iff_exists.mp hsome
  rw [Backs, Backs, List.find?_append, hfirst, Option.some_or]

namespace ColumnRef
variable (groupBy : List ColumnRef) (c : ColumnRef)

def ref : KeyRef := (c.name, .column (Column.ofKey c.key))

/-- The name of a facet column: that of the group column with its key, if there is one. -/
def facetName : String :=
  match groupBy.find? (·.key = c.key) with
  | some grouped => grouped.name
  | none => c.name

/-- A facet column has a key of its own if no group column has its key. -/
def ownRefs : List KeyRef :=
  match groupBy.find? (·.key = c.key) with
  | some _ => []
  | none => [c.ref]

theorem facetName_mem {refs : List KeyRef} (h : groupBy.map ref ⊆ refs) :
    c.facetName groupBy ∈ (refs ++ c.ownRefs groupBy).map Prod.fst := by
  rw [facetName, ownRefs]
  split
  · next grouped hgrouped =>
    have hmem := List.mem_of_find?_eq_some hgrouped
    exact List.mem_map_of_mem (List.mem_append_left _ (h (List.mem_map_of_mem hmem)))
  · exact List.mem_map_of_mem (f := Prod.fst)
      (List.mem_append_right refs (List.mem_singleton_self c.ref))

end ColumnRef

namespace Draft
variable {d : Draft} {refs : List KeyRef} {groupBy : List ColumnRef} {c : ColumnRef}
  {name ident : String} {source : KeySource}

theorem Follows.identOf_iff (h : d.Follows (refs.map KeyRef.use)) (hvalid : d.registry.Valid) :
    d.registry.identOf? name = some ident ↔
      ident = Alias.ofName name ∧ ∃ source, Backs refs name source := by
  rw [hvalid.identOf_iff, h.owner, firstUse?_refs]
  refine and_congr_right ?_
  rintro rfl
  simp [Backs, KeyRef.use, Option.map_eq_some_iff]

theorem Follows.facetKey {uses : List NameUse} (h : d.Follows uses) (groupBy : List ColumnRef)
    (c : ColumnRef) :
    (facetKey groupBy d c).2.Follows (uses ++ (c.ownRefs groupBy).map KeyRef.use) := by
  cases hgrouped : groupBy.find? (·.key = c.key) with
  | some grouped =>
    simpa only [Draft.facetKey, ColumnRef.ownRefs, hgrouped, List.map_nil, List.append_nil] using h
  | none =>
    have hadd := h.addKey c.name (.column (Column.ofKey c.key))
    simp only [Draft.facetKey, ColumnRef.ownRefs, hgrouped, addColumn]
    cases hc : d.addKey c.name (.column (Column.ofKey c.key)) with
    | mk registration d' =>
      rw [hc] at hadd
      cases registration <;> exact hadd

/-- A facet column is the key under its name afterwards. -/
theorem identOf_facetKey (hvalid : d.registry.Valid) (groupBy : List ColumnRef) (c : ColumnRef) :
    (facetKey groupBy d c).1 =
      (facetKey groupBy d c).2.registry.identOf? (c.facetName groupBy) := by
  cases hgrouped : groupBy.find? (·.key = c.key) with
  | some grouped => simp only [facetKey, ColumnRef.facetName, hgrouped]
  | none =>
    have hident := hvalid.identOf_register c.name
    rw [← d.addKey_register c.name (.column (Column.ofKey c.key))] at hident
    simp only [facetKey, ColumnRef.facetName, hgrouped, addColumn]
    cases hadd : d.addKey c.name (.column (Column.ofKey c.key)) with
    | mk registration d' =>
      rw [hadd] at hident
      cases registration <;> exact hident.symm

theorem mem_facetKeys_addFacet (groupBy : List ColumnRef) (d : Draft) (c : ColumnRef) :
    ident ∈ (d.addFacet groupBy c).facetKeys ↔
      ident ∈ d.facetKeys ∨ (facetKey groupBy d c).1 = some ident := by
  have hkeeps : (facetKey groupBy d c).2.facetKeys = d.facetKeys := by
    rcases d.facetKey_draft groupBy c with hd | hd <;> rw [hd]
    exact (keeps_addKey d _ _).facetKeys
  rw [addFacet]
  cases hf : facetKey groupBy d c with
  | mk key d' =>
    rw [hf] at hkeeps
    simp only at hkeeps
    cases key with
    | none => simp [hkeeps]
    | some ident' =>
      simp only [hkeeps, Option.some.injEq]
      split
      · next hmem =>
        rw [List.contains_iff_mem] at hmem
        rw [hkeeps, iff_self_or]
        rintro rfl
        exact hmem
      · simp [eq_comm]

/-- What a run through facet columns has come to, after keys of some other names: the facet keys are
those of the columns that are the first of their names. -/
structure Faceted (groupBy : List ColumnRef) (refs : List KeyRef) (done : List ColumnRef)
    (d : Draft) : Prop where
  keyed : d.Keyed
  follows : d.Follows ((refs ++ done.flatMap (ColumnRef.ownRefs groupBy)).map KeyRef.use)
  mem_facetKeys : ∀ ident, ident ∈ d.facetKeys ↔ ∃ c ∈ done,
    ident = Alias.ofName (c.facetName groupBy) ∧ ∃ source,
      Backs (refs ++ done.flatMap (ColumnRef.ownRefs groupBy)) (c.facetName groupBy) source

theorem Faceted.addFacet {done : List ColumnRef} (h : Faceted groupBy refs done d)
    (hgroup : groupBy.map ColumnRef.ref ⊆ refs) (c : ColumnRef) :
    Faceted groupBy refs (done ++ [c]) (d.addFacet groupBy c) := by
  have hrefs : refs ++ (done ++ [c]).flatMap (ColumnRef.ownRefs groupBy) =
      refs ++ done.flatMap (ColumnRef.ownRefs groupBy) ++ c.ownRefs groupBy := by
    rw [List.flatMap_append, List.flatMap_singleton, List.append_assoc]
  have hkeyed : (facetKey groupBy d c).2.Keyed := (h.keyed.facetKey rfl).1
  have hident := identOf_facetKey h.keyed.columns_scoped.registry_valid groupBy c
  have hfollows := h.follows.facetKey groupBy c
  rw [← List.map_append] at hfollows
  -- The columns before this one have their names already.
  have hdone : ∀ c' ∈ done, ∀ source,
      Backs (refs ++ done.flatMap (ColumnRef.ownRefs groupBy) ++ c.ownRefs groupBy)
        (c'.facetName groupBy) source ↔
      Backs (refs ++ done.flatMap (ColumnRef.ownRefs groupBy)) (c'.facetName groupBy) source := by
    intro c' hc' source
    refine backs_append (List.map_subset _ ?_ (c'.facetName_mem groupBy hgroup))
    refine List.append_subset.mpr ⟨List.subset_append_left _ _, fun ref href => ?_⟩
    exact List.mem_append_right _ (List.mem_flatMap.mpr ⟨c', hc', href⟩)
  obtain ⟨facetKeys, heq⟩ := d.addFacet_draft groupBy c
  refine ⟨h.keyed.addFacet c, ?_, fun ident => ?_⟩
  · rw [hrefs, heq]
    exact hfollows.congr rfl rfl fun _ _ => Iff.rfl
  · rw [mem_facetKeys_addFacet, h.mem_facetKeys, hident,
      hfollows.identOf_iff hkeyed.columns_scoped.registry_valid, hrefs]
    simp only [List.mem_append, List.mem_singleton, or_and_right, exists_or, exists_eq_left]
    refine or_congr_left (exists_congr fun c' => and_congr_right fun hc' => ?_)
    simp only [hdone c' hc']

theorem Faceted.foldl (h : Faceted groupBy refs [] d) (hgroup : groupBy.map ColumnRef.ref ⊆ refs)
    (cs : List ColumnRef) : Faceted groupBy refs cs (cs.foldl (Draft.addFacet groupBy) d) := by
  induction cs using List.reverseRecOn with
  | nil => exact h
  | append_singleton done c ih =>
    rw [List.foldl_append]
    exact ih.addFacet hgroup c

theorem keys_subset_addKey (d : Draft) (name : String) (source : KeySource) :
    d.keys ⊆ (d.addKey name source).2.keys := by
  rcases d.addKey_cases name source with ⟨-, r, hadd, -⟩ | ⟨-, o, r, hadd, -⟩ <;> rw [hadd]
  · exact List.subset_append_left _ _
  · exact List.Subset.refl _

theorem keys_subset_addTotal (d : Draft) (f : PlannedField) : d.keys ⊆ (d.addTotal f).keys := by
  rcases d.addTotal_cases f with ⟨r, heq, -⟩ | ⟨t, r, -, heq, -⟩ <;> rw [heq] <;>
    exact List.Subset.refl _

end Draft

namespace AnalyzeQuery
variable (q : AnalyzeQuery)

/-- The date and the group columns. -/
def groupRefs : List KeyRef :=
  (q.granularity.bucket?.map fun p => ("date", KeySource.bucket p)).toList ++
    q.groupBy.map ColumnRef.ref

/-- The date, the group columns, and the facet columns that are not among them. -/
def keyRefs : List KeyRef := q.groupRefs ++ q.fieldGroup.flatMap (ColumnRef.ownRefs q.groupBy)

theorem follows_groupDraft : q.groupDraft.Follows (q.groupRefs.map KeyRef.use) := by
  have hdate : (({} : Draft).addDate q.granularity).Follows (List.map KeyRef.use
      (q.granularity.bucket?.map fun p => ("date", KeySource.bucket p)).toList) := by
    rw [Draft.addDate]
    cases q.granularity.bucket? with
    | none => exact Draft.follows_empty
    | some p => exact Draft.follows_empty.addKey "date" (.bucket p)
  rw [groupRefs, List.map_append, List.map_map, List.map_eq_flatMap (l := q.groupBy)]
  exact hdate.foldl (fun d c => (d.addColumn c).2) _
    (fun _ _ c h => h.addKey c.name (.column (Column.ofKey c.key))) q.groupBy

theorem faceted_draftKeys : Draft.Faceted q.groupBy q.groupRefs q.fieldGroup q.draftKeys := by
  have hstart : Draft.Faceted q.groupBy q.groupRefs [] q.groupDraft :=
    { keyed := q.keyed_groupDraft
      follows := by simpa using q.follows_groupDraft
      mem_facetKeys := by simp [q.keeps_groupDraft.facetKeys] }
  exact hstart.foldl (List.subset_append_right _ _) q.fieldGroup

theorem follows_draftKeys : q.draftKeys.Follows (q.keyRefs.map KeyRef.use) :=
  q.faceted_draftKeys.follows

theorem draftKeys_subset : q.draftKeys.keys ⊆ q.draft.keys := by
  refine q.draftFields_run (P := fun d => q.draftKeys.keys ⊆ d.keys) (List.Subset.refl _) ?_ ?_ ?_
  · exact fun d s _ h => List.Subset.trans h (d.keys_subset_addKey s.1 _)
  · exact fun d f _ h => (d.addField_draft q.isFaceted f).1 ▸ h
  · exact fun _ d f _ h => List.Subset.trans h (d.keys_subset_addTotal f)

/-- Of the keys of one identifier there is one. -/
theorem source_of_key {ident : String} {source source' : KeySource}
    (h : ⟨ident, source⟩ ∈ q.draft.keys) (h' : ⟨ident, source'⟩ ∈ q.draft.keys) :
    source = source' := by
  have hnodup := (List.nodup_append.mp q.draft_scoped.columns_nodup).1
  exact (GroupKey.mk.inj (List.inj_on_of_nodup_map hnodup h h' rfl)).2

theorem key_of_backs {name : String} {source : KeySource} (h : Backs q.keyRefs name source) :
    ⟨Alias.ofName name, source⟩ ∈ q.draft.keys := by
  have hfirst : firstUse? (q.keyRefs.map KeyRef.use) (Alias.ofName name) =
      some (name, .key source) := by
    rw [firstUse?_refs, h]
    rfl
  exact q.draftKeys_subset ((q.follows_draftKeys.keys _ _).mpr ⟨name, hfirst⟩)

/-- The column of a facet column, or the date where the facet column goes by its name. -/
def Asked (source : KeySource) : Prop :=
  ∃ c ∈ q.fieldGroup, source = .column (Column.ofKey c.key) ∨
    (c.name = "date" ∧ ∃ p, source = .bucket p)

/-- Where no name is that of two sources, the first key of a name is that of the facet column. -/
theorem asked_of_backs (hnames : ∀ ref ∈ q.keyRefs, ∀ ref' ∈ q.keyRefs, ref.1 = ref'.1 →
    ref.2 = ref'.2) {c : ColumnRef} (hc : c ∈ q.fieldGroup) {source : KeySource}
    (h : Backs q.keyRefs (c.facetName q.groupBy) source) : q.Asked source := by
  have hown : (c.facetName q.groupBy, .column (Column.ofKey c.key)) ∈ q.keyRefs := by
    cases hgrouped : q.groupBy.find? (·.key = c.key) with
    | some grouped =>
      have hkey : grouped.key = c.key := by simpa using List.find?_some hgrouped
      rw [ColumnRef.facetName, hgrouped, ← hkey]
      exact List.mem_append_left _ (List.mem_append_right _
        (List.mem_map_of_mem (f := ColumnRef.ref) (List.mem_of_find?_eq_some hgrouped)))
    | none =>
      rw [ColumnRef.facetName, hgrouped]
      refine List.mem_append_right _ (List.mem_flatMap.mpr ⟨c, hc, ?_⟩)
      rw [ColumnRef.ownRefs, hgrouped]
      exact List.mem_singleton_self _
  exact ⟨c, hc, Or.inl (hnames _ (List.mem_of_find?_eq_some h) _ hown rfl)⟩

/-- A facet key is backed by the first key of the name of a facet column. It was asked for if no
name is that of two sources. -/
theorem facetKeys_backed {plan : AnalyzePlan} {f : Facet} (h : AnalyzePlan.ofQuery q = .ok plan)
    (hf : plan.facet? = some f) :
    ∃ g, plan.group? = some g ∧
      (∀ ident source, (ident ∈ f.facetKeys ∧ ⟨ident, source⟩ ∈ g.keys) ↔
        ∃ c ∈ q.fieldGroup, ident = Alias.ofName (c.facetName q.groupBy) ∧
          Backs q.keyRefs (c.facetName q.groupBy) source) ∧
      ((∀ ident ∈ f.facetKeys, ∃ k ∈ g.keys, k.ident = ident ∧ q.Asked k.source) ↔
        ∀ c ∈ q.fieldGroup, ∀ source, Backs q.keyRefs (c.facetName q.groupBy) source →
          q.Asked source) ∧
      ((∀ ref ∈ q.keyRefs, ∀ ref' ∈ q.keyRefs, ref.1 = ref'.1 → ref.2 = ref'.2) →
        ∀ ident ∈ f.facetKeys, ∃ k ∈ g.keys, k.ident = ident ∧ q.Asked k.source) := by
  obtain ⟨-, rfl⟩ := AnalyzePlan.facet_of_ofQuery h hf
  have hmem (ident : String) : ident ∈ q.draft.facetKeys ↔ ∃ c ∈ q.fieldGroup,
      ident = Alias.ofName (c.facetName q.groupBy) ∧ ∃ source,
        Backs q.keyRefs (c.facetName q.groupBy) source := by
    rw [q.draft_facetKeys]
    exact q.faceted_draftKeys.mem_facetKeys ident
  have hiff : (∀ ident ∈ q.draft.facetKeys, ∃ k ∈ q.draft.keys, k.ident = ident ∧
      q.Asked k.source) ↔ ∀ c ∈ q.fieldGroup, ∀ source,
        Backs q.keyRefs (c.facetName q.groupBy) source → q.Asked source := by
    constructor
    · intro hall c hc source hbacks
      obtain ⟨⟨_, source'⟩, hk, rfl, hasked⟩ := hall _ ((hmem _).mpr ⟨c, hc, rfl, source, hbacks⟩)
      rwa [← q.source_of_key hk (q.key_of_backs hbacks)]
    · intro hall ident hident
      obtain ⟨c, hc, rfl, source, hbacks⟩ := (hmem ident).mp hident
      exact ⟨_, q.key_of_backs hbacks, rfl, hall c hc source hbacks⟩
  refine ⟨_, AnalyzePlan.group_of_ofQuery h, fun ident source => ⟨?_, ?_⟩, hiff, fun hnames =>
    hiff.mpr fun c hc source hbacks => q.asked_of_backs hnames hc hbacks⟩
  · rintro ⟨hident, hk⟩
    obtain ⟨c, hc, rfl, source', hbacks⟩ := (hmem ident).mp hident
    exact ⟨c, hc, rfl, q.source_of_key (q.key_of_backs hbacks) hk ▸ hbacks⟩
  · rintro ⟨c, hc, rfl, hbacks⟩
    exact ⟨(hmem _).mpr ⟨c, hc, rfl, source, hbacks⟩, q.key_of_backs hbacks⟩

end AnalyzeQuery

theorem regionQuery_backed :
    ∃ plan g f, AnalyzePlan.ofQuery regionQuery = .ok plan ∧ plan.group? = some g ∧
      plan.facet? = some f ∧ "region" ∈ f.facetKeys ∧
      ⟨"region", .column ⟨"region_code", none⟩⟩ ∈ g.keys ∧
      ∀ ident ∈ f.facetKeys, ∃ k ∈ g.keys, k.ident = ident ∧ regionQuery.Asked k.source := by
  have h : AnalyzePlan.ofQuery regionQuery = .ok _ := rfl
  obtain ⟨g, hg, hmem, hiff, -⟩ := AnalyzeQuery.facetKeys_backed regionQuery h rfl
  have hregion := (hmem "region" (.column ⟨"region_code", none⟩)).mpr
    ⟨⟨"region_code", "region"⟩, List.mem_singleton_self _, rfl, rfl⟩
  refine ⟨_, g, _, h, hg, rfl, hregion.1, hregion.2, hiff.mpr fun c hc source hbacks => ?_⟩
  obtain rfl := List.mem_singleton.mp hc
  have hsource : some ("region", KeySource.column ⟨"region_code", none⟩) =
      some ("region", source) := hbacks
  exact ⟨_, hc, Or.inl (Prod.mk.inj (Option.some.inj hsource)).2.symm⟩

/-- A list over products that go by the name of the providers. -/
def sharedRequest : Request :=
  { regionRequest with fieldGroup := [.obj [("key", .str "product"), ("name", .str "provider")]] }

def sharedQuery : AnalyzeQuery := { regionQuery with fieldGroup := [⟨"product", "provider"⟩] }

/-- The list is over the providers. -/
theorem sharedQuery_not_asked :
    ∃ plan g f, AnalyzeQuery.ofRequest {} sharedRequest = .ok sharedQuery ∧
      AnalyzePlan.ofQuery sharedQuery = .ok plan ∧ plan.group? = some g ∧ plan.facet? = some f ∧
      "provider" ∈ f.facetKeys ∧
      ∀ k ∈ g.keys, k.ident = "provider" → ¬ sharedQuery.Asked k.source := by
  refine ⟨_, _, _, rfl, rfl, rfl, rfl, List.mem_of_getElem? (i := 0) rfl, ?_⟩
  have hkeys : sharedQuery.draft.keys =
      [⟨"date", .bucket .day⟩, ⟨"provider", .column ⟨"provider", none⟩⟩] := rfl
  rintro k hk hident ⟨c, hc, hcolumn | ⟨hdate, -⟩⟩ <;> obtain rfl := List.mem_singleton.mp hc
  · have hmem : k ∈ sharedQuery.draft.keys := hk
    rw [hkeys, List.mem_cons, List.mem_singleton] at hmem
    rcases hmem with rfl | rfl
    · cases hcolumn
    · exact absurd (KeySource.column.inj hcolumn) (by decide)
  · exact absurd hdate (by decide)

end CostQuery

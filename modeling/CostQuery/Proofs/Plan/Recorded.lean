import CostQuery.Proofs.Plan.FacetKeys

/-! Outputs without a column of their own. They are recorded, unless the column that stands in their
way has the very same name. -/

namespace CostQuery

namespace AnalyzeQuery
variable (q : AnalyzeQuery)

def selectUses : List NameUse :=
  q.select.map fun s => (s.1, .key (.computed (Computed.ofSelect s.2)))

/-- The names registered for columns of the groups. Those of totals come after them. -/
def uses : List NameUse :=
  q.fields.foldl (FieldSpec.addUses q.isFaceted) (q.keyRefs.map KeyRef.use ++ q.selectUses)

/-- The outputs asked for: group columns, computed columns and fields. -/
def entries : List NameUse :=
  q.groupBy.map (fun c => c.ref.use) ++ q.selectUses ++ q.fields.map FieldSpec.use

theorem entries_subset : q.entries ⊆ q.uses := by
  have hstart := FieldSpec.subset_foldl_addUses q.isFaceted q.fields
    (q.keyRefs.map KeyRef.use ++ q.selectUses)
  obtain ⟨hkept, hfields⟩ := List.append_subset.mp hstart
  obtain ⟨hkeys, hselect⟩ := List.append_subset.mp hkept
  refine List.append_subset.mpr ⟨List.append_subset.mpr ⟨fun use huse => ?_, hselect⟩, hfields⟩
  obtain ⟨c, hc, rfl⟩ := List.mem_map.mp huse
  refine hkeys (List.mem_map_of_mem (List.mem_append_left _ (List.mem_append_right _ ?_)))
  exact List.mem_map_of_mem hc

variable {q} in
theorem fits_of_entry {entry : NameUse} (h : entry ∈ q.entries) :
    entry.2.FitsName entry.1 ∧ entry.2 ≠ .helper := by
  rcases List.mem_append.mp h with hkeys | hfields
  · have hkey : ∃ source, entry.2 = .key source := by
      rcases List.mem_append.mp hkeys with hgroup | hselect
      · obtain ⟨c, -, rfl⟩ := List.mem_map.mp hgroup
        exact ⟨_, rfl⟩
      · obtain ⟨s, -, rfl⟩ := List.mem_map.mp hselect
        exact ⟨_, rfl⟩
    obtain ⟨source, hkey⟩ := hkey
    rw [hkey]
    exact ⟨ColumnSource.fitsName_key source entry.1, ColumnSource.noConfusion⟩
  · obtain ⟨f, -, rfl⟩ := List.mem_map.mp hfields
    refine ⟨fun c hc => ?_, ColumnSource.noConfusion⟩
    cases hc
    exact ⟨rfl, rfl⟩

end AnalyzeQuery

/-- The column of the name is among those of the groups, under the identifier of the name. -/
def Group.Owns (g : Group) : NameUse → Prop
  | (name, .key source) => ⟨Alias.ofName name, source⟩ ∈ g.keys
  | (_, .field c) => c ∈ g.fields
  | (_, .helper) => False

/-- A name has its column if its use is the first. -/
theorem Draft.Follows.owns_iff {d : Draft} {uses : List NameUse} {use : NameUse} {name : String}
    {source : ColumnSource} (h : d.Follows uses) (hfits : source.FitsName name)
    (hcolumn : source ≠ .helper) (hfirst : firstUse? uses (Alias.ofName name) = some use) :
    Group.Owns ⟨d.keys, d.fields⟩ (name, source) ↔ use.2 = source := by
  obtain ⟨first, source'⟩ := use
  cases source with
  | helper => exact absurd rfl hcolumn
  | key source => simp [Group.Owns, h.keys, hfirst]
  | field c =>
    obtain ⟨hident, hshown⟩ := hfits c rfl
    simp [Group.Owns, h.fields c hshown, hident, hfirst]

namespace AnalyzeQuery
variable (q : AnalyzeQuery)

/-- The draft knows the uses of the query, and then those of the totals. -/
theorem follows_draft : ∃ more, q.draft.Follows (q.uses ++ more) := by
  have hselect : (q.select.foldl (fun d s => d.addSelect s.1 s.2) q.draftKeys).Follows
      (q.keyRefs.map KeyRef.use ++ q.selectUses) := by
    rw [selectUses, List.map_eq_flatMap (l := q.select)]
    exact q.follows_draftKeys.foldl (fun d (s : String × SelectExpr) => d.addSelect s.1 s.2) _
      (fun _ _ s h => h.addKey s.1 (.computed (Computed.ofSelect s.2))) q.select
  have hfields : Draft.Follows q.uses (q.fields.foldl (Draft.addField q.isFaceted) _) :=
    List.foldl_rel (r := fun uses d => Draft.Follows uses d) hselect
      fun f _ _ _ h => h.addField q.isFaceted f
  rw [draft, draftFields]
  split
  · refine List.foldlRecOn (motive := fun d => ∃ more, Draft.Follows (q.uses ++ more) d) _
      Draft.addTotal ⟨[], by simpa using hfields⟩ fun d hd f _ => ?_
    obtain ⟨more, hmore⟩ := hd
    obtain ⟨total, htotal⟩ := hmore.addTotal f
    exact ⟨more ++ total, by rwa [← List.append_assoc]⟩
  · exact ⟨[], by simpa using hfields⟩

/-- An output asked for has its column if its use is the first of the query. -/
theorem owns_iff {entry first : NameUse} (hentry : entry ∈ q.entries)
    (hfirst : firstUse? q.uses (Alias.ofName entry.1) = some first) :
    Group.Owns ⟨q.draft.keys, q.draft.fields⟩ entry ↔ first.2 = entry.2 := by
  obtain ⟨more, hfollows⟩ := q.follows_draft
  obtain ⟨hfits, hcolumn⟩ := fits_of_entry hentry
  refine hfollows.owns_iff hfits hcolumn ?_
  rw [firstUse?_append, hfirst, Option.some_or]

/-- It is recorded if the first use is that of another name. -/
theorem recorded_iff {entry first : NameUse} (hentry : entry ∈ q.entries)
    (hfirst : firstUse? q.uses (Alias.ofName entry.1) = some first) :
    (∃ c ∈ q.draft.registry.collisions, c.dropped = entry.1) ↔ first.1 ≠ entry.1 := by
  obtain ⟨more, hfollows⟩ := q.follows_draft
  have hname : entry.1 ∈ (q.uses ++ more).map Prod.fst :=
    List.mem_map_of_mem (List.mem_append_left more (q.entries_subset hentry))
  rw [hfollows.recorded, firstUse?_append, hfirst, Option.some_or]
  simp only [hname, true_and, Option.mem_some_iff, exists_eq_left']

end AnalyzeQuery

/-- An output asked for is there or recorded, unless the first to take its identifier goes by the
very same name and is another output. -/
theorem AnalyzePlan.owns_or_recorded {q : AnalyzeQuery} {plan : AnalyzePlan}
    (h : AnalyzePlan.ofQuery q = .ok plan) :
    ∃ g, plan.group? = some g ∧ ∀ entry ∈ q.entries,
      (g.Owns entry ∨ ∃ c ∈ plan.collisions, c.dropped = entry.1) ↔
        ∀ first ∈ firstUse? q.uses (Alias.ofName entry.1),
          first.1 = entry.1 → first.2 = entry.2 := by
  refine ⟨_, group_of_ofQuery h, fun entry hentry => ?_⟩
  obtain ⟨-, rfl⟩ := ofQuery_ok h
  obtain ⟨first, hfirst⟩ :=
    exists_firstUse (List.mem_map_of_mem (f := Prod.fst) (q.entries_subset hentry))
  rw [q.owns_iff hentry hfirst, q.recorded_iff hentry hfirst, hfirst]
  simp only [Option.mem_some_iff, forall_eq']
  tauto

/-- The costs once more, under a name with the identifier of the mean. -/
def crowdedQuery : AnalyzeQuery :=
  { regionQuery with fields := regionQuery.fields ++ [⟨"mean-cost", .max, some "cost", []⟩] }

/-- The second of the two names is recorded. -/
theorem crowdedQuery_recorded :
    ∃ plan g, AnalyzePlan.ofQuery crowdedQuery = .ok plan ∧ plan.group? = some g ∧
      ∀ entry ∈ crowdedQuery.entries,
        g.Owns entry ∨ ∃ c ∈ plan.collisions, c.dropped = entry.1 := by
  have h : AnalyzePlan.ofQuery crowdedQuery = .ok _ := rfl
  obtain ⟨g, hg, hentries⟩ := AnalyzePlan.owns_or_recorded h
  refine ⟨_, g, h, hg, fun entry hentry => (hentries entry hentry).mpr ?_⟩
  have hlist : crowdedQuery.entries = (ColumnRef.ref ⟨"provider", "provider"⟩).use ::
    crowdedQuery.fields.map FieldSpec.use := rfl
  rw [hlist] at hentry
  simp only [crowdedQuery, regionQuery, costsByRegion, List.map_append, List.map_cons, List.map_nil,
    List.mem_cons, List.mem_append, List.not_mem_nil, or_false] at hentry
  rcases hentry with rfl | (rfl | rfl) | rfl <;> intro first hfirst hname <;>
    obtain rfl := Option.some.inj hfirst
  · rfl
  · rfl
  · rfl
  · exact absurd hname (by decide)

/-- Groups by provider and by product, both under one name. -/
def namesakeRequest : Request := { regionRequest with
  groupBy := [.obj [("key", .str "provider"), ("name", .str "x")],
    .obj [("key", .str "product"), ("name", .str "x")]]
  fields := []
  fieldGroup := []
  sort := [] }

def namesakeQuery : AnalyzeQuery := { regionQuery with
  groupBy := [⟨"provider", "x"⟩, ⟨"product", "x"⟩]
  fields := []
  fieldGroup := []
  sort := [] }

/-- The product is not there, repeats nothing, and is not recorded. -/
theorem namesakeRequest_unrecorded :
    ∃ plan g before entry, AnalyzeQuery.ofRequest {} namesakeRequest = .ok namesakeQuery ∧
      AnalyzePlan.ofQuery namesakeQuery = .ok plan ∧ plan.group? = some g ∧
      namesakeQuery.entries = before ++ [entry] ∧ entry ∉ before ∧ ¬ g.Owns entry ∧
      ∀ c ∈ plan.collisions, c.dropped ≠ entry.1 := by
  have hne : KeySource.column ⟨"provider", none⟩ ≠ .column ⟨"product", none⟩ :=
    fun h => absurd (KeySource.column.inj h) (by decide)
  have hmem : ("x", .key (.column ⟨"product", none⟩)) ∈ namesakeQuery.entries :=
    List.mem_cons_of_mem _ List.mem_cons_self
  have hfirst : firstUse? namesakeQuery.uses (Alias.ofName "x") =
      some ("x", .key (.column ⟨"provider", none⟩)) := rfl
  refine ⟨_, _, [("x", .key (.column ⟨"provider", none⟩))], _, rfl, rfl, rfl, rfl, fun h => ?_,
    fun howns => ?_, fun c hc => ?_⟩
  · obtain ⟨-, h⟩ := Prod.mk.inj (List.mem_singleton.mp h)
    exact hne (ColumnSource.key.inj h).symm
  · exact hne (ColumnSource.key.inj ((namesakeQuery.owns_iff hmem hfirst).mp howns))
  · cases hc

end CostQuery

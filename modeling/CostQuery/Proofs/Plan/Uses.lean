import CostQuery.Proofs.Plan.Fields

/-! What names are registered for while a plan is made. Of the uses of one identifier the first has
it, and its column. -/

namespace CostQuery

/-- What a name is registered for. -/
inductive ColumnSource where
  | key (source : KeySource)
  | field (column : AggregateField)
  /-- Hidden columns and totals. -/
  | helper

namespace ColumnSource

def keys (ident : String) : ColumnSource → List GroupKey
  | .key source => [⟨ident, source⟩]
  | .field _ | .helper => []

def fields : ColumnSource → List AggregateField
  | .field column => [column]
  | .key _ | .helper => []

/-- The column of a field goes by the identifier of the name, and is shown. -/
def FitsName (source : ColumnSource) (name : String) : Prop :=
  ∀ c, source = .field c → c.ident = Alias.ofName name ∧ c.hidden = false

theorem fitsName_key (source : KeySource) (name : String) : (key source).FitsName name := by
  intro c hc
  cases hc

theorem fitsName_helper (name : String) : helper.FitsName name := by
  intro c hc
  cases hc

end ColumnSource

/-- A name, and what it is registered for. -/
abbrev NameUse := String × ColumnSource

/-- The first use of an identifier, whose name holds it. -/
def firstUse? (uses : List NameUse) (ident : String) : Option NameUse :=
  uses.find? fun use => Alias.ofName use.1 = ident

section
variable {uses : List NameUse} {use : NameUse} {name ident : String} {source : ColumnSource}

theorem firstUse?_append (uses more : List NameUse) (ident : String) :
    firstUse? (uses ++ more) ident = (firstUse? uses ident).or (firstUse? more ident) :=
  List.find?_append

theorem firstUse?_singleton (name : String) (source : ColumnSource) (ident : String) :
    firstUse? [(name, source)] ident =
      if Alias.ofName name = ident then some (name, source) else none := by
  simp [firstUse?, List.find?_singleton]

theorem ident_of_firstUse (h : firstUse? uses ident = some use) :
    use ∈ uses ∧ Alias.ofName use.1 = ident :=
  ⟨List.mem_of_find?_eq_some h, by simpa using List.find?_some h⟩

theorem exists_firstUse (h : name ∈ uses.map Prod.fst) :
    ∃ use, firstUse? uses (Alias.ofName name) = some use := by
  obtain ⟨use, huse, rfl⟩ := List.mem_map.mp h
  exact Option.isSome_iff_exists.mp (List.find?_isSome.mpr ⟨use, huse, by simp⟩)

theorem firstUse?_concat_of_free (h : firstUse? uses (Alias.ofName name) = none)
    (source : ColumnSource) (ident : String) : firstUse? (uses ++ [(name, source)]) ident =
      if Alias.ofName name = ident then some (name, source) else firstUse? uses ident := by
  rw [firstUse?_append, firstUse?_singleton]
  split
  · next hident => rw [← hident, h, Option.none_or]
  · exact Option.or_none

/-- A later use changes nothing for an identifier that is used. -/
theorem firstUse?_concat_of_used (h : firstUse? uses (Alias.ofName name) = some use)
    (source : ColumnSource) (ident : String) :
    firstUse? (uses ++ [(name, source)]) ident = firstUse? uses ident := by
  rw [firstUse?_append, firstUse?_singleton]
  split
  · next hident => rw [← hident, h, Option.some_or]
  · exact Option.or_none

end

/-! The uses that a field makes. -/

/-- The hidden sum of an average, and the hidden count if the sum gets its name. -/
def partUses (uses : List NameUse) (name : String) : List NameUse :=
  let summed := uses ++ [("__sum_" ++ name, .helper)]
  if (firstUse? uses (Alias.ofName ("__sum_" ++ name))).isNone then
    summed ++ [("__count_" ++ name, .helper)]
  else summed

namespace FieldSpec

def use (f : FieldSpec) : NameUse := (f.name, .field f.column)

/-- Only an average that gets its name has hidden columns, and only for its total. -/
def HasParts (f : FieldSpec) (faceted : Bool) (uses : List NameUse) : Prop :=
  faceted = true ∧ f.aggregate = .average ∧ f.key.isSome = true ∧
    firstUse? uses (Alias.ofName f.name) = none

instance (f : FieldSpec) (faceted : Bool) (uses : List NameUse) :
    Decidable (f.HasParts faceted uses) :=
  inferInstanceAs (Decidable (_ ∧ _ ∧ _ ∧ _))

def addUses (faceted : Bool) (uses : List NameUse) (f : FieldSpec) : List NameUse :=
  if f.HasParts faceted uses then partUses (uses ++ [f.use]) f.name else uses ++ [f.use]

theorem subset_addUses (faceted : Bool) (uses : List NameUse) (f : FieldSpec) :
    uses ++ [f.use] ⊆ f.addUses faceted uses := by
  rw [addUses, partUses]
  split
  · split
    · exact List.Subset.trans (List.subset_append_left _ _) (List.subset_append_left _ _)
    · exact List.subset_append_left _ _
  · exact List.Subset.refl _

theorem subset_foldl_addUses (faceted : Bool) (fs : List FieldSpec) (uses : List NameUse) :
    uses ++ fs.map use ⊆ fs.foldl (addUses faceted) uses := by
  induction fs generalizing uses with
  | nil => simp
  | cons f fs ih =>
    rw [List.map_cons, List.append_cons, List.foldl_cons]
    have hadd := f.subset_addUses faceted uses
    obtain ⟨hkept, hrest⟩ := List.append_subset.mp (ih (f.addUses faceted uses))
    exact List.append_subset.mpr ⟨List.Subset.trans hadd hkept, hrest⟩

end FieldSpec

namespace Draft
variable {d d' : Draft} {uses : List NameUse} {use : NameUse} {name : String}
  {source : ColumnSource}

/-- Of the uses of an identifier the first has it, and its column; the names of the others are
recorded where they differ. -/
structure Follows (uses : List NameUse) (d : Draft) : Prop where
  owner : ∀ ident, d.registry.ownerOf? ident =
    (firstUse? uses ident).map fun use => ⟨ident, use.1⟩
  keys : ∀ ident source, ⟨ident, source⟩ ∈ d.keys ↔
    ∃ name, firstUse? uses ident = some (name, .key source)
  fields : ∀ c, c.hidden = false →
    (c ∈ d.fields ↔ ∃ name, firstUse? uses c.ident = some (name, .field c))
  recorded : ∀ name, (∃ c ∈ d.registry.collisions, c.dropped = name) ↔
    name ∈ uses.map Prod.fst ∧ ∃ use ∈ firstUse? uses (Alias.ofName name), use.1 ≠ name

theorem follows_empty : Follows [] {} where
  owner _ := rfl
  keys _ _ := by simp [firstUse?]
  fields _ _ := by simp [firstUse?]
  recorded _ := by simp

/-- Hidden columns, and what is kept beside the columns, do not matter. -/
theorem Follows.congr (h : d.Follows uses) (hregistry : d'.registry = d.registry)
    (hkeys : d'.keys = d.keys)
    (hfields : ∀ c, c.hidden = false → (c ∈ d'.fields ↔ c ∈ d.fields)) : d'.Follows uses where
  owner := hregistry ▸ h.owner
  keys := hkeys ▸ h.keys
  fields c hshown := (hfields c hshown).trans (h.fields c hshown)
  recorded := hregistry ▸ h.recorded

/-- A name whose identifier is free is given it, and its column. -/
theorem Follows.register_free (h : d.Follows uses)
    (hfree : firstUse? uses (Alias.ofName name) = none) :
    ∃ registry, d.register name = (.new (Alias.ofName name), { d with registry }) ∧
      ∀ source : ColumnSource, source.FitsName name → Follows (uses ++ [(name, source)]) { d with
        registry
        keys := d.keys ++ source.keys (Alias.ofName name)
        fields := d.fields ++ source.fields } := by
  have hnone : d.registry.ownerOf? (Alias.ofName name) = none := by
    rw [h.owner, hfree]
    rfl
  have hunused (other : String) (hother : Alias.ofName name = Alias.ofName other) :
      other ∉ uses.map Prod.fst := by
    intro hmem
    obtain ⟨use, huse⟩ := exists_firstUse hmem
    rw [← hother, hfree] at huse
    cases huse
  refine ⟨{ d.registry with entries := d.registry.entries ++ [⟨Alias.ofName name, name⟩] }, ?_,
    fun source hsource => ?_⟩
  · simp only [register, Registry.register, hnone]
  · have huse := firstUse?_concat_of_free hfree source
    constructor
    case owner =>
      intro ident
      rw [huse, Registry.ownerOf?, List.find?_append, ← Registry.ownerOf?, h.owner,
        List.find?_singleton]
      by_cases hident : Alias.ofName name = ident
      · subst hident
        simp [hfree]
      · simp [hident]
    case keys =>
      intro ident key
      rw [List.mem_append, h.keys, huse]
      by_cases hident : Alias.ofName name = ident
      · subst hident
        cases source <;> simp [hfree, ColumnSource.keys, eq_comm]
      · cases source <;> simp [hident, ColumnSource.keys, Ne.symm hident]
    case fields =>
      intro c hshown
      rw [List.mem_append, h.fields c hshown, huse]
      by_cases hident : Alias.ofName name = c.ident
      · have hnone : firstUse? uses c.ident = none := hident ▸ hfree
        cases source <;> simp [hnone, hident, ColumnSource.fields, eq_comm]
      · have hother : c ∉ source.fields := by
          intro hc
          cases source with
          | key | helper => cases hc
          | field c' =>
            obtain rfl := List.mem_singleton.mp hc
            exact hident (hsource c rfl).1.symm
        simp [hident, hother]
    case recorded =>
      intro other
      rw [h.recorded, huse, List.map_append, List.mem_append]
      by_cases hident : Alias.ofName name = Alias.ofName other
      · have hnone : firstUse? uses (Alias.ofName other) = none := hident ▸ hfree
        simp [hident, hnone, hunused other hident, eq_comm]
      · have hne : other ≠ name := by
          rintro rfl
          exact hident rfl
        simp [hident, hne]

/-- A name whose identifier is used is given nothing, and is recorded if the one that holds it is
another. -/
theorem Follows.register_used (h : d.Follows uses)
    (hused : firstUse? uses (Alias.ofName name) = some use) :
    ∃ registration registry, d.register name = (registration, { d with registry }) ∧
      registration.newIdent? = none ∧
      ∀ source, Follows (uses ++ [(name, source)]) { d with registry } := by
  have howner : d.registry.ownerOf? (Alias.ofName name) = some ⟨Alias.ofName name, use.1⟩ := by
    rw [h.owner, hused]
    rfl
  -- Nobody loses an identifier, so only what is recorded can differ.
  have hfollows (registry : Registry) (hentries : registry.entries = d.registry.entries)
      (hcollisions : ∀ other, (∃ c ∈ registry.collisions, c.dropped = other) ↔
        (∃ c ∈ d.registry.collisions, c.dropped = other) ∨ other = name ∧ use.1 ≠ name)
      (source : ColumnSource) : Follows (uses ++ [(name, source)]) { d with registry } := by
    have huse := firstUse?_concat_of_used hused source
    constructor
    case owner =>
      intro ident
      rw [huse, Registry.ownerOf?, hentries]
      exact h.owner ident
    case keys =>
      intro ident key
      rw [huse]
      exact h.keys ident key
    case fields =>
      intro c hshown
      rw [huse]
      exact h.fields c hshown
    case recorded =>
      intro other
      rw [huse, hcollisions, h.recorded, List.map_append, List.mem_append]
      by_cases hother : other = name
      · subst hother
        have hmem (hsame : use.1 = other) : other ∈ uses.map Prod.fst :=
          List.mem_map.mpr ⟨use, (ident_of_firstUse hused).1, hsame⟩
        simp [hused]
      · simp [hother]
  by_cases hname : use.1 = name
  · refine ⟨.existing (Alias.ofName name), d.registry, ?_, rfl, hfollows _ rfl ?_⟩
    · simp only [register, Registry.register, howner, hname, if_true]
    · simp [hname]
  · refine ⟨.collision (Alias.ofName name), { d.registry with
      collisions := d.registry.collisions ++ [⟨Alias.ofName name, use.1, name⟩] }, ?_, rfl,
      hfollows _ rfl ?_⟩
    · simp only [register, Registry.register, howner, hname, if_false]
    · intro other
      simp [hname, or_and_right, exists_or, eq_comm]

/-- A name that no column goes with. -/
theorem Follows.register_helper (h : d.Follows uses) (name : String) :
    (d.register name).2.Follows (uses ++ [(name, .helper)]) ∧
      ((d.register name).1.newIdent?.isSome ↔ firstUse? uses (Alias.ofName name) = none) := by
  cases hfirst : firstUse? uses (Alias.ofName name) with
  | none =>
    obtain ⟨registry, hregister, hfollows⟩ := h.register_free hfirst
    rw [hregister]
    have hhelper := hfollows .helper (ColumnSource.fitsName_helper name)
    refine ⟨hhelper.congr rfl ?_ fun c _ => ?_, iff_of_true rfl rfl⟩
    · exact (List.append_nil d.keys).symm
    · simp [ColumnSource.fields]
  | some use =>
    obtain ⟨registration, registry, hregister, hnew, hfollows⟩ := h.register_used hfirst
    rw [hregister, hnew]
    refine ⟨hfollows .helper, ?_⟩
    simp only [Option.isSome_none, Bool.false_eq_true, reduceCtorEq]

theorem Follows.addKey (h : d.Follows uses) (name : String) (source : KeySource) :
    (d.addKey name source).2.Follows (uses ++ [(name, .key source)]) := by
  cases hfirst : firstUse? uses (Alias.ofName name) with
  | none =>
    obtain ⟨registry, hregister, hfollows⟩ := h.register_free hfirst
    simp only [Draft.addKey, hregister]
    have hkey := hfollows (.key source) (ColumnSource.fitsName_key source name)
    refine hkey.congr rfl rfl fun c _ => ?_
    simp [ColumnSource.fields]
  | some use =>
    obtain ⟨registration, registry, hregister, hnew, hfollows⟩ := h.register_used hfirst
    have hkept : d.addKey name source = (registration, { d with registry }) := by
      rw [Draft.addKey, hregister]
      cases registration with
      | new => cases hnew
      | existing | collision => rfl
    rw [hkept]
    exact hfollows (.key source)

theorem Follows.addParts (h : d.Follows uses) (name : String) (column : Column) :
    (d.addParts name column).2.Follows (partUses uses name) := by
  obtain ⟨hsummed, hsum⟩ := h.register_helper ("__sum_" ++ name)
  rw [Draft.addParts, partUses]
  cases hr : d.register ("__sum_" ++ name) with
  | mk registration d1 =>
    rw [hr] at hsummed hsum
    cases registration with
    | existing | collision =>
      have hused : firstUse? uses (Alias.ofName ("__sum_" ++ name)) ≠ none := by
        intro hfree
        cases hsum.mpr hfree
      simpa [hused] using hsummed
    | new sum =>
      obtain ⟨hcounted, -⟩ := hsummed.register_helper ("__count_" ++ name)
      have hfree := hsum.mp rfl
      simp only [hfree, Option.isNone_none, if_true]
      cases hc : d1.register ("__count_" ++ name) with
      | mk registration d2 =>
        rw [hc] at hcounted
        cases registration with
        | existing | collision => exact hcounted
        | new count =>
          refine hcounted.congr rfl rfl fun c hshown => ?_
          simp only [addInput, List.mem_append, List.mem_singleton]
          refine ⟨fun hc => ?_, fun hc => Or.inl (Or.inl hc)⟩
          rcases hc with (hc | rfl) | rfl
          · exact hc
          · cases hshown
          · cases hshown

theorem Follows.addField (h : d.Follows uses) (faceted : Bool) (f : FieldSpec) :
    (d.addField faceted f).Follows (f.addUses faceted uses) := by
  cases hfirst : firstUse? uses (Alias.ofName f.name) with
  | some use =>
    obtain ⟨registration, registry, hregister, hnew, hfollows⟩ := h.register_used hfirst
    have hkept : d.addField faceted f = { d with registry } := by
      rw [Draft.addField, hregister]
      cases registration with
      | new => cases hnew
      | existing | collision => rfl
    have hparts : ¬ f.HasParts faceted uses := by simp [FieldSpec.HasParts, hfirst]
    rw [hkept, FieldSpec.addUses, if_neg hparts]
    exact hfollows _
  | none =>
    obtain ⟨registry, hregister, hfollows⟩ := h.register_free hfirst
    have hshown : Follows (uses ++ [f.use])
        ({ d with registry }.addInput ⟨Alias.ofName f.name, f.aggregate, f.input, false⟩) := by
      refine (hfollows (.field f.column) fun c hc => ?_).congr rfl ?_ fun _ _ => Iff.rfl
      · cases hc
        exact ⟨rfl, rfl⟩
      · exact (List.append_nil d.keys).symm
    simp only [Draft.addField, hregister]
    split
    · next key haverage hkey =>
      have hparts : f.HasParts true uses := ⟨rfl, haverage, by simp [hkey], hfirst⟩
      rw [FieldSpec.addUses, if_pos hparts]
      exact (hshown.addParts f.name (Column.ofKey key)).congr rfl rfl fun _ _ => Iff.rfl
    · next faceted _ _ _ hother =>
      have hparts : ¬ f.HasParts faceted uses := by
        rintro ⟨hfaceted, haverage, hkey, -⟩
        obtain ⟨key, hkey⟩ := Option.isSome_iff_exists.mp hkey
        exact hother key hfaceted haverage hkey
      rw [FieldSpec.addUses, if_neg hparts]
      exact hshown.congr rfl rfl fun _ _ => Iff.rfl

theorem Follows.addTotal (h : d.Follows uses) (f : PlannedField) :
    ∃ more, (d.addTotal f).Follows (uses ++ more) := by
  rw [Draft.addTotal]
  split
  · exact ⟨[], by simpa using h⟩
  · obtain ⟨hfollows, -⟩ := h.register_helper (totalMark ++ f.name)
    refine ⟨[(totalMark ++ f.name, .helper)], ?_⟩
    cases hr : d.register (totalMark ++ f.name) with
    | mk registration d1 =>
      rw [hr] at hfollows
      cases registration with
      | existing | collision => exact hfollows
      | new ident => exact hfollows.congr rfl rfl fun _ _ => Iff.rfl

/-- A run of a builder, each step with uses of its own. -/
theorem Follows.foldl {α : Type} (h : d.Follows uses) (step : Draft → α → Draft)
    (own : α → List NameUse)
    (hstep : ∀ uses d a, Follows uses d → Follows (uses ++ own a) (step d a)) (as : List α) :
    (as.foldl step d).Follows (uses ++ as.flatMap own) := by
  induction as generalizing d uses with
  | nil => simpa using h
  | cons a as ih =>
    rw [List.foldl_cons, List.flatMap_cons, ← List.append_assoc]
    exact ih (hstep uses d a h)

end Draft
end CostQuery

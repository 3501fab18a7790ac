import CostQuery.Proofs.Plan.Fields
import CostQuery.Proofs.Plan.Stages
import CostQuery.Proofs.Query.Checked

/-! Totals over the groups: a field keeps its own unless a column shown goes by a name it needs. -/

namespace CostQuery

/-! Adding the totals. -/

/-- The identifier of the total of a field. -/
def FieldSpec.totalIdent (f : FieldSpec) : String := Alias.ofName (totalMark ++ f.name)

def PlannedField.totalIdent (p : PlannedField) : String := Alias.ofName (totalMark ++ p.name)

namespace Draft
variable {d d₀ : Draft} {done : List PlannedField} {specs : List FieldSpec} {p p' : PlannedField}

/-- What adding the totals of some fields has made of a draft: each has its own, unless its name
was taken before. -/
structure Totalled (d₀ : Draft) (done : List PlannedField) (d : Draft) : Prop where
  keys : d.keys = d₀.keys
  fields : d.fields = d₀.fields
  planned : d.planned = d₀.planned
  entries : d₀.registry.entries ⊆ d.registry.entries
  taken : ∀ ident ∈ d.registry.idents,
    ident ∈ d₀.registry.idents ∨ ∃ p ∈ done, ident = p.totalIdent
  totals : ∀ t ∈ d.totals, ∃ p ∈ done, p.total? = some t.total ∧ t.ident = p.totalIdent
  totalOf : ∀ t ∈ d.totalOf, ∃ p ∈ done, t = (p.ident, p.totalIdent)
  complete : ∀ p ∈ done, ∀ t, p.total? = some t → p.totalIdent ∉ d₀.registry.idents →
    ⟨p.totalIdent, t⟩ ∈ d.totals ∧ (p.ident, p.totalIdent) ∈ d.totalOf

theorem Traced.totalled (h : d.Traced specs) : Totalled d [] d where
  keys := rfl
  fields := rfl
  planned := rfl
  entries := List.Subset.refl _
  taken _ hident := Or.inl hident
  totals _ ht := absurd (h.totals ▸ ht) List.not_mem_nil
  totalOf _ ht := absurd (h.totalOf ▸ ht) List.not_mem_nil
  complete _ hp := absurd hp List.not_mem_nil

theorem Totalled.addTotal (h : Totalled d₀ done d)
    (hp : ∀ p' ∈ done, p'.totalIdent ≠ p.totalIdent) :
    Totalled d₀ (done ++ [p]) (d.addTotal p) := by
  have hold {Q : PlannedField → Prop} : (∃ p' ∈ done, Q p') → ∃ p' ∈ done ++ [p], Q p' :=
    fun ⟨p', hmem, hq⟩ => ⟨p', List.mem_append_left _ hmem, hq⟩
  have hnew : p ∈ done ++ [p] := List.mem_append_right _ (List.mem_singleton_self _)
  rcases d.addTotal_cases p with ⟨r, heq, hsame, htaken⟩ | ⟨t, r, ht, heq, hentries⟩
  · rw [heq]
    refine { h with
      entries := hsame ▸ h.entries
      taken := fun ident hident => ?_
      totals := fun t ht => hold (h.totals t ht)
      totalOf := fun t ht => hold (h.totalOf t ht)
      complete := List.forall_mem_append.mpr ⟨h.complete, List.forall_mem_singleton.mpr ?_⟩ }
    · exact (h.taken ident (by rwa [Registry.idents, ← hsame])).imp_right hold
    · -- The name of this total was taken, and not by a total made so far.
      intro t ht hfree
      rcases h.taken _ (htaken (by simp [ht])) with hmem | ⟨p', hp', hident⟩
      · exact absurd hmem hfree
      · exact absurd hident.symm (hp p' hp')
  · have hidents := Registry.idents_of_entries [totalMark ++ p.name] hentries
    rw [heq]
    refine { h with
      entries := hentries ▸ List.Subset.trans h.entries (List.subset_append_left _ _)
      taken := fun ident hident => ?_
      totals := List.forall_mem_append.mpr ⟨fun t ht => hold (h.totals t ht),
        List.forall_mem_singleton.mpr ⟨p, hnew, ht, rfl⟩⟩
      totalOf := List.forall_mem_append.mpr ⟨fun t ht => hold (h.totalOf t ht),
        List.forall_mem_singleton.mpr ⟨p, hnew, rfl⟩⟩
      complete := List.forall_mem_append.mpr ⟨fun p' hp' t' ht' hfree => ?_,
        List.forall_mem_singleton.mpr fun t' ht' _ => ?_⟩ }
    · rw [hidents] at hident
      rcases List.mem_append.mp hident with hident | hident
      · exact (h.taken ident hident).imp_right hold
      · exact Or.inr ⟨p, hnew, List.mem_singleton.mp hident⟩
    · exact (h.complete p' hp' t' ht' hfree).imp (List.mem_append_left _) (List.mem_append_left _)
    · obtain rfl := Option.some.inj (ht.symm.trans ht')
      exact ⟨List.mem_append_right _ (List.mem_singleton_self _),
        List.mem_append_right _ (List.mem_singleton_self _)⟩

theorem Totalled.foldl {ps : List PlannedField} (h : Totalled d₀ done d)
    (hps : ((done ++ ps).map PlannedField.totalIdent).Nodup) :
    Totalled d₀ (done ++ ps) (ps.foldl Draft.addTotal d) := by
  induction ps generalizing d done with
  | nil => rwa [List.append_nil]
  | cons p ps ih =>
    rw [List.append_cons] at hps ⊢
    refine ih (h.addTotal fun p' hp' => ?_) hps
    rw [List.map_append, List.map_append] at hps
    exact (List.nodup_append.mp (List.nodup_append.mp hps).1).2.2 _ (List.mem_map_of_mem hp') _
      (List.mem_map_of_mem (List.mem_singleton_self p))

/-! The fields are told apart by their names, and so are their totals. -/

theorem Traced.ident_eq (h : d.Traced specs) (hp : p ∈ d.planned) :
    p.ident = Alias.ofName p.name := by
  obtain ⟨f, -, hserves⟩ := h.served p hp
  rw [hserves.ident, hserves.name]

theorem Traced.eq_of_ident (h : d.Traced specs) (hd : d.Scoped) (hp : p ∈ d.planned)
    (hp' : p' ∈ d.planned) (heq : Alias.ofName p.name = Alias.ofName p'.name) : p = p' := by
  rw [← h.ident_eq hp, ← h.ident_eq hp'] at heq
  exact List.inj_on_of_nodup_map hd.planned_nodup hp hp' heq

theorem Traced.totalIdents_nodup (h : d.Traced specs) (hd : d.Scoped) :
    (d.planned.map PlannedField.totalIdent).Nodup :=
  hd.planned_nodup.of_map.map_on fun _ hp _ hp' heq =>
    h.eq_of_ident hd hp hp' (Alias.ofName_of_marked Alias.isMark_total heq)

/-- No name is left for the total of a field but its own, unless a column shown has it. -/
theorem Traced.shown_of_total (h : d.Traced specs) {name : String}
    (htaken : Alias.ofName (totalMark ++ name) ∈ d.registry.idents) :
    Alias.ofName (totalMark ++ name) ∈ d.shownIdents := by
  rcases h.owned _ htaken with hshown | ⟨p, -, n, hn, heq⟩
  · exact hshown
  · exact absurd heq (total_ne_helper hn)

/-- The first field that goes by a name or an identifier of a field is that field. -/
theorem Traced.find_key (h : d.Traced specs) (hd : d.Scoped) (hp : p ∈ d.planned) {key : String}
    (hkey : key = p.name ∨ key = p.ident) :
    (d.planned.find? fun f => f.name = key || f.ident = key) = some p := by
  have hident := h.ident_eq hp
  have hsome : (d.planned.find? fun f => f.name = key || f.ident = key).isSome := by
    refine List.find?_isSome.mpr ⟨p, hp, ?_⟩
    rcases hkey with rfl | rfl <;> simp
  obtain ⟨p', hfind⟩ := Option.isSome_iff_exists.mp hsome
  have hp' := List.mem_of_find?_eq_some hfind
  have hident' := h.ident_eq hp'
  have hnames : p'.name = key ∨ p'.ident = key := by simpa using List.find?_some hfind
  -- A name and the identifier made from it have the same identifier.
  have hsame : Alias.ofName key = p.ident := by
    rcases hkey with rfl | rfl
    · exact hident.symm
    · rw [hident, Alias.ofName_ofName]
  have hsame' : Alias.ofName key = p'.ident := by
    rcases hnames with rfl | rfl
    · exact hident'.symm
    · rw [hident', Alias.ofName_ofName]
  rw [hfind, h.eq_of_ident hd hp' hp (hident'.symm.trans (hsame'.symm.trans (hsame.trans hident)))]

theorem Totalled.totalFor (h : Totalled d₀ d₀.planned d) (ht : d₀.Traced specs) (hd : d₀.Scoped)
    (hp : p ∈ d₀.planned) (htotal : (p.ident, p.totalIdent) ∈ d.totalOf) {key : String}
    (hkey : key = p.name ∨ key = p.ident) : d.totalFor? key = some p.totalIdent := by
  have hsome : (d.totalOf.find? fun t => t.1 = p.ident).isSome :=
    List.find?_isSome.mpr ⟨_, htotal, by simp⟩
  obtain ⟨t, hfind⟩ := Option.isSome_iff_exists.mp hsome
  obtain ⟨p', hp', rfl⟩ := h.totalOf t (List.mem_of_find?_eq_some hfind)
  have hident : p'.ident = p.ident := by simpa using List.find?_some hfind
  obtain rfl := List.inj_on_of_nodup_map hd.planned_nodup hp' hp hident
  simp only [totalFor?, h.planned, ht.find_key hd hp hkey, Option.bind_eq_bind, Option.bind_some,
    hfind]
  rfl

end Draft
end CostQuery

import CostQuery.Plan.Alias
import Mathlib.Data.List.Nodup

/-! Every identifier of a registry was made from its name, and no two names share one. -/

namespace CostQuery.Registry
variable {r : Registry} {name ident : String} {e : OutputColumn}

def idents (r : Registry) : List String := r.entries.map (·.ident)

structure Valid (r : Registry) : Prop where
  made : ∀ e ∈ r.entries, e.ident = Alias.ofName e.name
  idents_nodup : r.idents.Nodup

theorem valid_empty : Valid {} where
  made _ he := absurd he List.not_mem_nil
  idents_nodup := List.nodup_nil

theorem Valid.names_nodup (h : r.Valid) : (r.entries.map (·.name)).Nodup := by
  have hidents : r.idents = (r.entries.map (·.name)).map Alias.ofName := by
    rw [idents, List.map_map]
    exact List.map_congr_left h.made
  exact List.Nodup.of_map _ (hidents ▸ h.idents_nodup)

theorem ownerOf_none : r.ownerOf? ident = none ↔ ident ∉ r.idents := by
  simp [ownerOf?, idents]

theorem ident_of_ownerOf (h : r.ownerOf? ident = some e) : e ∈ r.entries ∧ e.ident = ident :=
  ⟨List.mem_of_find?_eq_some h, by simpa using List.find?_some h⟩

/-- What registering a name does: a free identifier is taken, and a taken one stays as it is. -/
theorem register_cases (r : Registry) (name : String) :
    (Alias.ofName name ∉ r.idents ∧
      r.register name =
        (.new (Alias.ofName name),
          { r with entries := r.entries ++ [⟨Alias.ofName name, name⟩] })) ∨
    (Alias.ofName name ∈ r.idents ∧
      (r.register name).1.newIdent? = none ∧
      (r.register name).1.ident = Alias.ofName name ∧
      (r.register name).2.entries = r.entries) := by
  cases ho : r.ownerOf? (Alias.ofName name) with
  | none =>
    refine Or.inl ⟨ownerOf_none.mp ho, ?_⟩
    simp only [register, ho]
  | some owner =>
    obtain ⟨hmem, hident⟩ := ident_of_ownerOf ho
    refine Or.inr ⟨hident ▸ List.mem_map_of_mem hmem, ?_⟩
    simp only [register, ho]
    split <;> exact ⟨rfl, rfl, rfl⟩

theorem Valid.register (h : r.Valid) (name : String) : (r.register name).2.Valid := by
  rcases register_cases r name with ⟨hfree, heq⟩ | ⟨-, -, -, hsame⟩
  · rw [heq]
    constructor
    · intro e he
      rcases List.mem_append.mp he with he | he
      · exact h.made e he
      · obtain rfl := List.mem_singleton.mp he
        rfl
    · rw [idents, List.map_append]
      exact List.nodup_append.mpr
        ⟨h.idents_nodup, List.nodup_singleton _, by
          intro a ha b hb
          obtain rfl := List.mem_singleton.mp hb
          rintro rfl
          exact hfree ha⟩
  · constructor
    · rw [hsame]
      exact h.made
    · rw [idents, hsame]
      exact h.idents_nodup

theorem idents_subset_register (r : Registry) (name : String) :
    r.idents ⊆ (r.register name).2.idents := by
  rcases register_cases r name with ⟨-, heq⟩ | ⟨-, -, -, hsame⟩
  · rw [heq, idents, idents, List.map_append]
    exact List.subset_append_left _ _
  · rw [idents, idents, hsame]
    exact List.Subset.refl _

theorem ident_mem_of_identOf (h : r.identOf? name = some ident) : ident ∈ r.idents := by
  rw [identOf?, Option.map_eq_some_iff] at h
  obtain ⟨e, he, rfl⟩ := h
  exact List.mem_map_of_mem (List.mem_of_find?_eq_some he)

end CostQuery.Registry

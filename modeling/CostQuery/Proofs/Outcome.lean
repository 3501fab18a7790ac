import Mathlib.Data.List.Forall2

/-! What a computation that may fail has done where it gives a result. -/

namespace CostQuery
variable {α β γ ε : Type} {R : α → β → Prop} {as : List α} {bs : List β}

theorem bind_ok {x : Except ε α} {k : α → Except ε β} {b : β} :
    x >>= k = .ok b ↔ ∃ a, x = .ok a ∧ k a = .ok b := by
  cases x with
  | error fault => simp [bind, Except.bind]
  | ok a => simp [bind, Except.bind]

theorem pure_ok {a b : α} : (pure a : Except ε α) = .ok b ↔ a = b := by
  simp [pure, Except.pure]

theorem bind_pure_ok {x : Except ε α} {k : α → β} {b : β} :
    (do return k (← x)) = .ok b ↔ ∃ a, x = .ok a ∧ k a = b := by
  simp only [bind_ok, pure_ok]

theorem bind_bind_pure_ok {x : Except ε α} {y : Except ε β} {k : α → β → γ} {c : γ} :
    (do return k (← x) (← y)) = .ok c ↔ ∃ a b, x = .ok a ∧ y = .ok b ∧ k a b = c := by
  simp only [bind_ok, pure_ok, exists_and_left]

theorem map_ok {x : Except ε α} {k : α → β} {b : β} :
    x.map k = .ok b ↔ ∃ a, x = .ok a ∧ k a = b := by
  cases x with
  | error fault => simp [Except.map]
  | ok a => simp [Except.map]

theorem mapError_ok {ε' : Type} {x : Except ε α} {k : ε → ε'} {a : α}
    (h : x.mapError k = .ok a) : x = .ok a := by
  cases x with
  | error fault => cases h
  | ok a => rw [Except.ok.inj h]

theorem mapM_some {f : α → Option β} (h : as.mapM f = some bs) :
    List.Forall₂ (fun a b => f a = some b) as bs := by
  induction as generalizing bs with
  | nil =>
    obtain rfl := Option.some.inj h
    exact .nil
  | cons a as ih =>
    simp only [List.mapM_cons, Option.bind_eq_bind, Option.bind_eq_some_iff, Option.pure_def,
      Option.some.injEq] at h
    obtain ⟨b, hb, rest, hrest, rfl⟩ := h
    exact .cons hb (ih hrest)

theorem mapM_ok {f : α → Except ε β} (h : as.mapM f = .ok bs) :
    List.Forall₂ (fun a b => f a = .ok b) as bs := by
  induction as generalizing bs with
  | nil =>
    obtain rfl := Except.ok.inj h
    exact .nil
  | cons a as ih =>
    simp only [List.mapM_cons, bind_ok, pure_ok] at h
    obtain ⟨b, hb, rest, hrest, rfl⟩ := h
    exact .cons hb (ih hrest)

/-- Nothing comes of nothing only. -/
theorem mapM_eq_nil {f : α → Except ε β} (h : as.mapM f = .ok bs) : bs = [] ↔ as = [] := by
  rw [← List.length_eq_zero_iff, ← List.length_eq_zero_iff, (mapM_ok h).length_eq]

theorem mapM_append_ok {f : α → Except ε β} {as' : List α} :
    (as ++ as').mapM f = .ok bs ↔
      ∃ front back, as.mapM f = .ok front ∧ as'.mapM f = .ok back ∧ front ++ back = bs := by
  rw [List.mapM_append]
  exact bind_bind_pure_ok

theorem mapM_singleton_ok {f : α → Except ε β} {a : α} :
    [a].mapM f = .ok bs ↔ ∃ b, f a = .ok b ∧ [b] = bs := by
  simp only [List.mapM_cons, List.mapM_nil, pure_bind, bind_pure_ok]

theorem exists_mapM_ok {f : α → Except ε β} (h : ∀ a ∈ as, ∃ b, f a = .ok b) :
    ∃ bs, as.mapM f = .ok bs := by
  induction as with
  | nil => exact ⟨[], rfl⟩
  | cons a as ih =>
    obtain ⟨⟨b, hb⟩, has⟩ := List.forall_mem_cons.mp h
    obtain ⟨bs, hbs⟩ := ih has
    refine ⟨b :: bs, ?_⟩
    rw [List.mapM_cons, hb, hbs]
    rfl

/-- A run through a list maps it, where every step maps its item by the same function. -/
theorem map_of_mapM_ok {f : α → Except ε β} {g : α → γ} {g' : β → γ} (h : as.mapM f = .ok bs)
    (hg : ∀ a b, f a = .ok b → g' b = g a) : bs.map g' = as.map g := by
  have hall := mapM_ok h
  clear h
  induction hall with
  | nil => rfl
  | cons hb _ ih => rw [List.map_cons, List.map_cons, hg _ _ hb, ih]

/-- What holds of an item as something else does of its outcome, holds of all items so. -/
theorem forall_iff_of_mapM_ok {f : α → Except ε β} {P : α → Prop} {Q : β → Prop}
    (h : as.mapM f = .ok bs) (hf : ∀ a ∈ as, ∀ b, f a = .ok b → (Q b ↔ P a)) :
    (∀ b ∈ bs, Q b) ↔ ∀ a ∈ as, P a := by
  have hall := mapM_ok h
  clear h
  induction hall with
  | nil => simp
  | cons hb _ ih =>
    obtain ⟨ha, has⟩ := List.forall_mem_cons.mp hf
    rw [List.forall_mem_cons, List.forall_mem_cons]
    exact and_congr (ha _ hb) (ih has)

theorem mapM_of_forall₂ {f : β → Option γ} {g : α → γ}
    (h : List.Forall₂ (fun a b => f b = some (g a)) as bs) : bs.mapM f = some (as.map g) := by
  induction h with
  | nil => rfl
  | cons hb _ ih =>
    rw [List.mapM_cons, hb, ih]
    rfl

theorem exists_of_forall₂ (h : List.Forall₂ R as bs) {a : α} (ha : a ∈ as) : ∃ b ∈ bs, R a b := by
  induction h with
  | nil => exact absurd ha List.not_mem_nil
  | @cons a' b as bs hab _ ih =>
    rcases List.mem_cons.mp ha with rfl | ha
    · exact ⟨b, List.mem_cons_self, hab⟩
    · obtain ⟨b', hb, hr⟩ := ih ha
      exact ⟨b', List.mem_cons_of_mem b hb, hr⟩

end CostQuery

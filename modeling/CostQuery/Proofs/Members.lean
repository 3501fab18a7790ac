import CostQuery.Members
import Mathlib.Algebra.BigOperators.Group.List.Basic
import Mathlib.Data.List.Induction
import Mathlib.Data.List.Nodup

/-! Members put together: every name once, at its first place and with its last value. -/

namespace CostQuery.Members
variable {α β : Type} {m : Members α} {key : String}

theorem put_of_notMem (h : key ∉ m.keys) (value : α) : m.put key value = m ++ [(key, value)] := by
  induction m with
  | nil => rfl
  | cons e rest ih =>
    obtain ⟨k, v⟩ := e
    rw [keys, List.map_cons, List.mem_cons, not_or] at h
    rw [put, if_neg (Ne.symm h.1), ih h.2, List.cons_append]

theorem keys_put_of_mem (h : key ∈ m.keys) (value : α) : (m.put key value).keys = m.keys := by
  induction m with
  | nil => cases h
  | cons e rest ih =>
    obtain ⟨k, v⟩ := e
    by_cases hk : k = key
    · rw [put, if_pos hk]
      rfl
    · have hrest : key ∈ keys rest := (List.mem_cons.mp h).resolve_left (Ne.symm hk)
      rw [put, if_neg hk]
      exact congrArg (k :: ·) (ih hrest)

theorem collect_concat (entries : List (String × α)) (e : String × α) :
    collect (entries ++ [e]) = (collect entries).put e.1 e.2 := by
  rw [collect, List.foldl_append]
  rfl

theorem of_mem_put {e : String × α} {value : α} (h : e ∈ m.put key value) :
    e = (key, value) ∨ e ∈ m := by
  induction m with
  | nil => exact Or.inl (List.mem_singleton.mp h)
  | cons e' rest ih =>
    obtain ⟨k, v⟩ := e'
    rw [put] at h
    split at h
    · next hk =>
      rcases List.mem_cons.mp h with rfl | h
      · exact Or.inl (hk ▸ rfl)
      · exact Or.inr (List.mem_cons_of_mem _ h)
    · rcases List.mem_cons.mp h with rfl | h
      · exact Or.inr List.mem_cons_self
      · exact (ih h).imp_right (List.mem_cons_of_mem _)

theorem of_mem_collect {entries : List (String × α)} {e : String × α} (h : e ∈ collect entries) :
    e ∈ entries := by
  induction entries using List.reverseRecOn with
  | nil => exact h
  | append_singleton entries last ih =>
    rw [collect_concat] at h
    rcases of_mem_put h with rfl | h
    · exact List.mem_append_right _ (List.mem_singleton_self _)
    · exact List.mem_append_left _ (ih h)

theorem nodup_keys_put (h : m.keys.Nodup) (key : String) (value : α) :
    (m.put key value).keys.Nodup := by
  by_cases hkey : key ∈ m.keys
  · rwa [keys_put_of_mem hkey]
  · rw [put_of_notMem hkey, keys, List.map_append]
    exact (List.perm_append_singleton _ _).nodup_iff.mpr (List.nodup_cons.mpr ⟨hkey, h⟩)

theorem nodup_keys_collect (entries : List (String × α)) : (collect entries).keys.Nodup := by
  induction entries using List.reverseRecOn with
  | nil => exact List.nodup_nil
  | append_singleton entries e ih =>
    rw [collect_concat]
    exact nodup_keys_put ih e.1 e.2

theorem mem_keys_collect {entries : List (String × α)} :
    key ∈ (collect entries).keys ↔ key ∈ entries.map Prod.fst := by
  induction entries using List.reverseRecOn with
  | nil => rfl
  | append_singleton entries e ih =>
    rw [collect_concat, List.map_append, List.mem_append, ← ih]
    by_cases h : e.1 ∈ (collect entries).keys
    · rw [keys_put_of_mem h]
      exact (or_iff_left_of_imp fun hmem => List.mem_singleton.mp hmem ▸ h).symm
    · rw [put_of_notMem h, keys, List.map_append, List.mem_append]
      rfl

/-- Entries are left as they are where no name comes twice. -/
theorem collect_eq_iff {entries : List (String × α)} :
    collect entries = entries ↔ (entries.map Prod.fst).Nodup := by
  constructor
  · intro h
    have := nodup_keys_collect entries
    rwa [h] at this
  · induction entries using List.reverseRecOn with
    | nil => exact fun _ => rfl
    | append_singleton entries e ih =>
      intro h
      rw [List.map_append] at h
      obtain ⟨hentries, -, hdisjoint⟩ := List.nodup_append.mp h
      have hnew : e.1 ∉ (collect entries).keys := by
        rw [ih hentries]
        exact fun hmem => hdisjoint _ hmem _ (List.mem_singleton_self _) rfl
      rw [collect_concat, put_of_notMem hnew, ih hentries]

theorem map_put (f : α → β) (m : Members α) (key : String) (value : α) :
    (m.put key value).map (fun e => (e.1, f e.2)) =
      put (m.map fun e => (e.1, f e.2)) key (f value) := by
  induction m with
  | nil => rfl
  | cons e rest ih =>
    obtain ⟨k, v⟩ := e
    by_cases hk : k = key
    · simp only [put, if_pos hk, List.map_cons]
    · simp only [put, if_neg hk, List.map_cons, ih]

/-- Values may be changed before or after. -/
theorem collect_map (f : α → β) (entries : List (String × α)) :
    collect (entries.map fun e => (e.1, f e.2)) =
      (collect entries).map fun e => (e.1, f e.2) := by
  induction entries using List.reverseRecOn with
  | nil => rfl
  | append_singleton entries e ih =>
    rw [List.map_append, List.map_singleton, collect_concat, collect_concat, map_put, ih]

/-- Members of the same names are the same where their values are. -/
theorem map_eq_map_iff {γ : Type} {m : Members α} {n : Members β}
    (hkeys : m.map Prod.fst = n.map Prod.fst) (f : α → γ) (g : β → γ) :
    (m.map fun e => (e.1, f e.2)) = (n.map fun e => (e.1, g e.2)) ↔
      (m.map Prod.snd).map f = (n.map Prod.snd).map g := by
  induction m generalizing n with
  | nil =>
    obtain rfl := List.map_eq_nil_iff.mp hkeys.symm
    simp
  | cons e rest ih =>
    cases n with
    | nil => cases hkeys
    | cons e' rest' =>
      obtain ⟨hkey, hrest⟩ := List.cons.inj hkeys
      simp only [List.map_cons, List.cons.injEq, Prod.mk.injEq, ih hrest]
      exact and_congr_left' (and_iff_right hkey)

theorem find?_put (p : String → Bool) (m : Members α) (key : String) (value : α) :
    (m.put key value).find? (fun e => p e.1) =
      ((m.find? fun e => p e.1).map fun e => (e.1, if e.1 = key then value else e.2)).or
        (if p key then some (key, value) else none) := by
  induction m with
  | nil => simp [put, List.find?_singleton]
  | cons e rest ih =>
    obtain ⟨k, v⟩ := e
    by_cases hk : k = key
    · subst hk
      by_cases hp : p k = true
      · simp [put, hp]
      · -- What is found has another name, so its value stays.
        have hfound : ∀ e ∈ rest.find? fun e => p e.1, ¬ e.1 = k := by
          rintro e he rfl
          exact hp (List.find?_some (p := fun e : String × α => p e.1) he)
        cases hrest : rest.find? fun e => p e.1 with
        | none => simp [put, hp, hrest]
        | some e => simp [put, hp, hrest, hfound e hrest]
    · by_cases hp : p k = true <;> simp [put, hk, hp, ih]

/-- The first name that is met is found, with the value that it has last. -/
theorem find?_collect (p : String → Bool) (entries : List (String × α)) :
    (collect entries).find? (fun e => p e.1) =
      (entries.find? fun e => p e.1).map fun e =>
        (e.1, (entries.reverse.lookup e.1).getD e.2) := by
  induction entries using List.reverseRecOn with
  | nil => rfl
  | append_singleton entries e ih =>
    obtain ⟨k, v⟩ := e
    rw [collect_concat, find?_put, ih, List.find?_append, List.find?_singleton,
      List.reverse_append]
    cases entries.find? fun e => p e.1 with
    | none => by_cases hp : p k = true <;> simp [hp]
    | some found =>
      by_cases hk : found.1 = k
      · simp [hk]
      · simp [hk, List.lookup_cons, beq_eq_false_iff_ne.mpr hk]

theorem lookup_of_find? (p : String → Bool) {entries : List (String × α)} {e : String × α}
    (h : entries.find? (fun e => p e.1) = some e) : entries.lookup e.1 = some e.2 := by
  induction entries with
  | nil => cases h
  | cons e' rest ih =>
    obtain ⟨k, v⟩ := e'
    rw [List.find?_cons] at h
    split at h
    · obtain rfl := Option.some.inj h
      simp
    · next hp =>
      have hfound : p e.1 = true := List.find?_some (p := fun e : String × α => p e.1) h
      have hk : e.1 ≠ k := by
        rintro rfl
        exact Bool.false_ne_true (hp.symm.trans hfound)
      rw [List.lookup_cons, beq_eq_false_iff_ne.mpr hk]
      exact ih h

theorem mem_of_get? {value : α} (h : m.get? key = some value) : (key, value) ∈ m := by
  induction m with
  | nil => cases h
  | cons e rest ih =>
    obtain ⟨k, v⟩ := e
    rw [get?] at h
    split at h
    · next hk =>
      obtain rfl := Option.some.inj h
      rw [hk]
      exact List.mem_cons_self
    · exact List.mem_cons_of_mem _ (ih h)

theorem get?_of_notMem (h : key ∉ m.keys) : m.get? key = none :=
  Option.eq_none_iff_forall_ne_some.mpr fun _ hvalue =>
    h (List.mem_map_of_mem (f := Prod.fst) (mem_of_get? hvalue))

theorem get?_filter (p : String → Bool) (m : Members α) (key : String) :
    get? (m.filter fun e => p e.1) key = if p key then m.get? key else none := by
  induction m with
  | nil => simp
  | cons e rest ih =>
    obtain ⟨k, v⟩ := e
    by_cases hk : k = key
    · subst hk
      by_cases hp : p k = true <;> simp [hp, get?, ih]
    · by_cases hp : p k = true <;> simp [hp, get?, hk, ih]

/-- A name that is left out may be put in before. -/
theorem filter_put {p : String → Bool} (h : p key = false) (m : Members α) (value : α) :
    (m.put key value).filter (fun e => p e.1) = m.filter fun e => p e.1 := by
  induction m with
  | nil => simp [put, h]
  | cons e rest ih =>
    obtain ⟨k, v⟩ := e
    by_cases hk : k = key
    · subst hk
      simp [put, h]
    · simp [put, hk, List.filter_cons, ih]

/-- Where a value is put, it takes the place of the one that was there. -/
theorem sum_put {N : Type} [AddCommMonoid N] (f : α → N) (m : Members α) (key : String)
    (value : α) : ((m.put key value).map fun e => f e.2).sum + ((m.get? key).map f).getD 0 =
      (m.map fun e => f e.2).sum + f value := by
  induction m with
  | nil => simp [put]
  | cons e rest ih =>
    obtain ⟨k, v⟩ := e
    by_cases hk : k = key
    · simp only [put, get?, if_pos hk, List.map_cons, List.sum_cons, Option.map_some,
        Option.getD_some]
      rw [add_comm (f value), add_right_comm, add_comm _ (f v)]
    · simp only [put, get?, if_neg hk, List.map_cons, List.sum_cons]
      rw [add_assoc, ih, add_assoc]

theorem mem_iff_get? (h : m.keys.Nodup) {value : α} :
    (key, value) ∈ m ↔ m.get? key = some value := by
  induction m with
  | nil => simp
  | cons e rest ih =>
    obtain ⟨k, v⟩ := e
    obtain ⟨hk, hrest⟩ := List.nodup_cons.mp h
    rw [List.mem_cons, ih hrest, get?, Prod.mk.injEq]
    by_cases hkey : k = key
    · subst hkey
      have hnone : get? rest k ≠ some value := fun hvalue =>
        hk (List.mem_map.mpr ⟨(k, value), (ih hrest).mpr hvalue, rfl⟩)
      simp [hnone, eq_comm]
    · simp [hkey, Ne.symm hkey]

theorem lookup_of_names (f : String → β) (names : List String) (key : String) :
    (names.map fun name => (name, f name)).lookup key =
      if key ∈ names then some (f key) else none := by
  induction names with
  | nil => rfl
  | cons name rest ih =>
    rw [List.map_cons, List.lookup_cons]
    by_cases hname : key = name
    · simp [hname]
    · rw [beq_eq_false_iff_ne.mpr hname, ih]
      simp [hname]

/-- The last value of a name is kept. -/
theorem get?_collect (entries : List (String × α)) (key : String) :
    (collect entries).get? key = entries.reverse.lookup key := by
  induction entries using List.reverseRecOn with
  | nil => rfl
  | append_singleton entries e ih =>
    obtain ⟨k, v⟩ := e
    rw [collect_concat, List.reverse_append, List.reverse_singleton, List.singleton_append]
    by_cases hk : key = k
    · subst hk
      rw [get?_put_self, List.lookup_cons_self]
    · rw [get?_put_of_ne _ _ hk, ih, List.lookup_cons, beq_eq_false_iff_ne.mpr hk]

end CostQuery.Members

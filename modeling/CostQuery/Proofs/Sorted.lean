import CostQuery.Proofs.Members
import Mathlib.Data.List.Sort
import Mathlib.Data.String.Basic

/-! Members in ascending order of name: they are told apart by their values alone. -/

namespace CostQuery.Members
variable {α : Type} {m m' : Members α} {key : String}

theorem get?_putSorted (m : Members α) (key : String) (value : α) (name : String) :
    (m.putSorted key value).get? name = if name = key then some value else m.get? name := by
  induction m with
  | nil => simp only [putSorted, get?, eq_comm (a := key)]
  | cons e rest ih =>
    obtain ⟨k, v⟩ := e
    rw [putSorted]
    by_cases hname : name = key
    · subst hname
      rw [if_pos rfl] at ih ⊢
      split_ifs with hk hlt
      · rw [get?, if_pos hk]
      · rw [get?, if_pos rfl]
      · rw [get?, if_neg hk, ih]
    · rw [if_neg hname] at ih ⊢
      split_ifs with hk hlt
      · subst hk
        rw [get?, get?, if_neg (Ne.symm hname), if_neg (Ne.symm hname)]
      · rw [get?, if_neg (Ne.symm hname)]
      · rw [get?, get?, ih]

theorem mem_keys_putSorted {value : α} {name : String} :
    name ∈ (m.putSorted key value).keys ↔ name = key ∨ name ∈ m.keys := by
  induction m with
  | nil => simp [putSorted, keys]
  | cons e rest ih =>
    obtain ⟨k, v⟩ := e
    simp only [keys, List.map_cons, List.mem_cons] at ih ⊢
    rw [putSorted]
    split_ifs with hk hlt
    · simp [hk]
    · simp
    · simp [ih, or_left_comm]

def IsSorted (m : Members α) : Prop := m.keys.Pairwise (· < ·)

theorem IsSorted.putSorted (h : m.IsSorted) (key : String) (value : α) :
    (m.putSorted key value).IsSorted := by
  induction m with
  | nil => exact List.pairwise_singleton _ _
  | cons e rest ih =>
    obtain ⟨k, v⟩ := e
    obtain ⟨hbefore, hrest⟩ := List.pairwise_cons.mp h
    rw [Members.putSorted]
    split_ifs with hk hlt
    · exact h
    · refine List.pairwise_cons.mpr ⟨?_, h⟩
      exact List.forall_mem_cons.mpr ⟨hlt, fun name hname => lt_trans hlt (hbefore name hname)⟩
    · refine List.pairwise_cons.mpr ⟨?_, ih hrest⟩
      intro name hname
      rcases mem_keys_putSorted.mp hname with rfl | hname
      · exact lt_of_le_of_ne (not_lt.mp hlt) hk
      · exact hbefore name hname

theorem collectSorted_concat (entries : List (String × α)) (e : String × α) :
    collectSorted (entries ++ [e]) = (collectSorted entries).putSorted e.1 e.2 := by
  rw [collectSorted, List.foldl_append]
  rfl

theorem isSorted_collectSorted (entries : List (String × α)) :
    (collectSorted entries).IsSorted := by
  induction entries using List.reverseRecOn with
  | nil => exact List.Pairwise.nil
  | append_singleton entries e ih =>
    rw [collectSorted_concat]
    exact ih.putSorted e.1 e.2

/-- The order of names changes no value. -/
theorem get?_collectSorted (entries : List (String × α)) (key : String) :
    (collectSorted entries).get? key = (collect entries).get? key := by
  induction entries using List.reverseRecOn with
  | nil => rfl
  | append_singleton entries e ih =>
    rw [collectSorted_concat, collect_concat, get?_putSorted, ih]
    split_ifs with hkey
    · rw [hkey, get?_put_self]
    · rw [get?_put_of_ne _ _ hkey]

theorem IsSorted.nodup (h : m.IsSorted) : m.keys.Nodup := h.imp ne_of_lt

theorem IsSorted.ext (h : m.IsSorted) (h' : m'.IsSorted)
    (hget : ∀ name, m.get? name = m'.get? name) : m = m' := by
  have hperm : m.Perm m' := by
    refine (List.perm_ext_iff_of_nodup (.of_map _ h.nodup) (.of_map _ h'.nodup)).mpr ?_
    rintro ⟨name, value⟩
    rw [mem_iff_get? h.nodup, mem_iff_get? h'.nodup, hget]
  refine hperm.eq_of_pairwise ?_ (List.pairwise_map.mp h) (List.pairwise_map.mp h')
  intro a b _ _ hlt hgt
  exact absurd hgt (not_lt_of_gt hlt)

end CostQuery.Members

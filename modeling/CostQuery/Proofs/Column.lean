import CostQuery.Column
import Mathlib.Data.List.TakeWhile
import Mathlib.Data.String.Basic

/-! Keys of columns, read back as columns. -/

namespace CostQuery.Column

theorem takeWhile_ne_append {root rest : List Char} (h : '.' ∉ root) :
    (root ++ '.' :: rest).takeWhile (· ≠ '.') = root := by
  induction root with
  | nil => simp
  | cons c root ih =>
    rw [List.mem_cons, not_or] at h
    rw [List.cons_append, List.takeWhile_cons_of_pos (by simpa using Ne.symm h.1), ih h.2]

theorem dropWhile_ne_append {root rest : List Char} (h : '.' ∉ root) :
    (root ++ '.' :: rest).dropWhile (· ≠ '.') = '.' :: rest := by
  induction root with
  | nil => simp
  | cons c root ih =>
    rw [List.mem_cons, not_or] at h
    rw [List.cons_append, List.dropWhile_cons_of_pos (by simpa using Ne.symm h.1), ih h.2]

theorem dropTrailingDots_of_notMem {root : List Char} (h : '.' ∉ root) :
    dropTrailingDots root = root := by
  have hr : root.reverse.dropWhile (· = '.') = root.reverse := by
    cases hr : root.reverse with
    | nil => rfl
    | cons c rest =>
      have hc : c ∈ root := List.mem_reverse.mp (hr ▸ List.mem_cons_self)
      rw [List.dropWhile_cons_of_neg]
      simp only [decide_eq_true_eq]
      rintro rfl
      exact h hc
  rw [dropTrailingDots, hr, List.reverse_reverse]

theorem dropTrailingDots_append_dot {root : List Char} (h : '.' ∉ root) :
    dropTrailingDots (root ++ ['.']) = root := by
  have := dropTrailingDots_of_notMem h
  simpa [dropTrailingDots] using this

section
variable {key : String} {root rest : List Char}

theorem ofKey_of_notMem (h : '.' ∉ key.toList) : ofKey key = ⟨key, none⟩ := by
  have hd : key.toList.dropWhile (· ≠ '.') = [] := by
    rw [List.dropWhile_eq_nil_iff]
    intro c hc
    rw [decide_eq_true_eq]
    rintro rfl
    exact h hc
  rw [ofKey, hd]
  simp only
  rw [dropTrailingDots_of_notMem h, String.ofList_toList]

theorem ofKey_append_dot (hk : key.toList = root ++ ['.']) (h : '.' ∉ root) :
    ofKey key = ⟨String.ofList root, none⟩ := by
  rw [ofKey, hk, dropWhile_ne_append h]
  simp only
  rw [dropTrailingDots_append_dot h]

theorem ofKey_append (hk : key.toList = root ++ '.' :: rest) (h : '.' ∉ root)
    (hrest : rest ≠ []) : ofKey key = ⟨String.ofList root, some (String.ofList rest)⟩ := by
  cases rest with
  | nil => exact absurd rfl hrest
  | cons c rest =>
    rw [ofKey, hk, dropWhile_ne_append h]
    simp only
    rw [takeWhile_ne_append h]

/-- The key of a column that was read from a key names the column. -/
theorem ofKey_key (key : String) : ofKey (ofKey key).key = ofKey key := by
  by_cases hdot : '.' ∈ key.toList
  · obtain ⟨root, rest, hk, hroot⟩ := List.eq_append_cons_of_mem hdot
    by_cases hrest : rest = []
    · subst hrest
      rw [ofKey_append_dot hk hroot, Column.key]
      exact ofKey_of_notMem (by simpa using hroot)
    · rw [ofKey_append hk hroot hrest, Column.key]
      exact ofKey_append (by simp) hroot hrest
  · rw [ofKey_of_notMem hdot, Column.key]
    exact ofKey_of_notMem hdot

/-- There is no dot in the key of a whole column. -/
theorem dot_notMem_of_whole (h : (ofKey key).sub = none) : '.' ∉ (ofKey key).key.toList := by
  by_cases hdot : '.' ∈ key.toList
  · obtain ⟨root, rest, hk, hroot⟩ := List.eq_append_cons_of_mem hdot
    by_cases hrest : rest = []
    · subst hrest
      rw [ofKey_append_dot hk hroot, Column.key]
      simpa using hroot
    · rw [ofKey_append hk hroot hrest] at h
      cases h
  · rwa [ofKey_of_notMem hdot, Column.key]

end

section
variable {c above top : Column} {a b : String}

theorem isUnder_iff : c.isUnder above = true ↔
    c.key = above.key ∨ ∃ sub, c.key = above.key ++ "." ++ sub := by
  rw [isUnder, Bool.or_eq_true, decide_eq_true_eq, List.isPrefixOf_iff_prefix]
  refine or_congr_right ?_
  constructor
  · rintro ⟨sub, hsub⟩
    refine ⟨String.ofList sub, String.toList_inj.mp ?_⟩
    simpa using hsub.symm
  · rintro ⟨sub, hsub⟩
    exact ⟨sub.toList, by simp [hsub]⟩

theorem isUnder_refl (c : Column) : c.isUnder c = true := isUnder_iff.mpr (.inl rfl)

theorem isUnder_trans (h : c.isUnder above = true) (habove : above.isUnder top = true) :
    c.isUnder top = true := by
  rw [isUnder_iff] at h habove ⊢
  rcases h with heq | ⟨sub, hsub⟩
  · rw [heq]
    exact habove
  · right
    rcases habove with heq | ⟨middle, hmiddle⟩
    · exact ⟨sub, by rw [hsub, heq]⟩
    · refine ⟨middle ++ "." ++ sub, ?_⟩
      rw [hsub, hmiddle]
      simp only [String.append_assoc]

/-- A column's key is longer than that of any column it lies beneath. -/
theorem key_eq_of_isUnder (h : c.isUnder above = true) (hback : above.isUnder c = true) :
    c.key = above.key := by
  rw [isUnder_iff] at h hback
  rcases h with heq | ⟨sub, hsub⟩
  · exact heq
  · rcases hback with heq | ⟨back, hback⟩
    · exact heq.symm
    · have hlength := congrArg String.length (hsub.trans (by rw [hback]))
      simp only [String.length_append] at hlength
      have hdot : ".".length = 1 := rfl
      omega

/-- Columns that were read from keys are told apart by their keys. -/
theorem ofKey_inj (h : (ofKey a).key = (ofKey b).key) : ofKey a = ofKey b := by
  have hread := congrArg ofKey h
  rwa [ofKey_key, ofKey_key] at hread

theorem ofKey_eq_of_isUnder (h : (ofKey a).isUnder (ofKey b) = true)
    (hback : (ofKey b).isUnder (ofKey a) = true) : ofKey a = ofKey b :=
  ofKey_inj (key_eq_of_isUnder h hback)

end
end CostQuery.Column

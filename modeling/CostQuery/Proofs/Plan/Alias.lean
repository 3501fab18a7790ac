import CostQuery.Plan.Alias
import CostQuery.Query.Fault
import Mathlib.Data.String.Basic

/-! Identifiers made from names: made again they stay, and marked names keep their marks. -/

namespace CostQuery.Alias
variable {name a b mark : String} {cs : List Char}

/-- The letters of an identifier, before a leading digit is guarded. -/
def letters (name : String) : List Char :=
  name.toList.map fun c => if isWordChar c then c else '_'

theorem toList_ofName (name : String) : (ofName name).toList = guardChars (letters name) := by
  rw [ofName, String.toList_ofList]
  rfl

theorem ofName_eq_of_letters (h : letters a = letters b) : ofName a = ofName b := by
  rw [← String.toList_inj, toList_ofName, toList_ofName, h]

theorem letters_append (a b : String) : letters (a ++ b) = letters a ++ letters b := by
  rw [letters, String.toList_append, List.map_append]
  rfl

theorem isWordChar_underscore : isWordChar '_' = true := by decide

theorem isWordChar_of_mem_letters {c : Char} (h : c ∈ letters name) : isWordChar c = true := by
  obtain ⟨c', -, rfl⟩ := List.mem_map.mp h
  split
  · assumption
  · exact isWordChar_underscore

theorem letters_of_word (h : ∀ c ∈ name.toList, isWordChar c = true) :
    letters name = name.toList := by
  rw [letters]
  exact (List.map_congr_left fun c hc => by rw [if_pos (h c hc)]).trans (List.map_id' _)

/-- A guard goes before the letters and is one itself. -/
theorem mem_guardChars {c : Char} (h : c ∈ guardChars cs) : c = '_' ∨ c ∈ cs := by
  cases cs with
  | nil => exact Or.inl (List.mem_singleton.mp h)
  | cons d rest =>
    simp only [guardChars] at h
    split at h
    · exact List.mem_cons.mp h
    · exact Or.inr h

theorem guardChars_guardChars (cs : List Char) : guardChars (guardChars cs) = guardChars cs := by
  cases cs with
  | nil => rfl
  | cons c rest =>
    by_cases hc : c.isDigit = true
    · have hguard : guardChars (c :: rest) = '_' :: c :: rest := by rw [guardChars, if_pos hc]
      rw [hguard]
      rfl
    · have hguard : guardChars (c :: rest) = c :: rest := by rw [guardChars, if_neg hc]
      rw [hguard, hguard]

theorem ofName_ofName (name : String) : ofName (ofName name) = ofName name := by
  have hword : ∀ c ∈ (ofName name).toList, isWordChar c = true := by
    intro c hc
    rw [toList_ofName] at hc
    rcases mem_guardChars hc with rfl | hc
    · exact isWordChar_underscore
    · exact isWordChar_of_mem_letters hc
  rw [← String.toList_inj, toList_ofName, letters_of_word hword, toList_ofName,
    guardChars_guardChars]

/-- Without underscores an identifier is the name itself. -/
theorem eq_of_ofName (h : '_' ∉ (ofName name).toList) : ofName name = name := by
  have hguard : guardChars (letters name) = letters name := by
    rw [toList_ofName] at h
    cases hletters : letters name with
    | nil => exact absurd (hletters ▸ List.mem_singleton_self _) h
    | cons c rest =>
      rw [hletters, guardChars] at h
      rw [guardChars]
      split at h
      · exact absurd List.mem_cons_self h
      · next hdigit => rw [if_neg hdigit]
  have hword : ∀ c ∈ name.toList, isWordChar c = true := by
    intro c hc
    by_contra hother
    refine h ?_
    rw [toList_ofName, hguard]
    exact List.mem_map.mpr ⟨c, hc, if_neg hother⟩
  rw [← String.toList_inj, toList_ofName, hguard, letters_of_word hword]

/-! Marks are set before names to make other names. -/

/-- A mark begins with an underscore and is a word. -/
structure IsMark (mark : String) : Prop where
  opens : ∃ rest, mark.toList = '_' :: rest
  word : mark.toList.all isWordChar = true

theorem isMark_total : IsMark totalMark := ⟨⟨_, rfl⟩, rfl⟩

theorem isMark_sum : IsMark "__sum_" := ⟨⟨_, rfl⟩, rfl⟩

theorem isMark_count : IsMark "__count_" := ⟨⟨_, rfl⟩, rfl⟩

theorem toList_ofName_marked (h : IsMark mark) (name : String) :
    (ofName (mark ++ name)).toList = mark.toList ++ letters name := by
  obtain ⟨rest, hrest⟩ := h.opens
  rw [toList_ofName, letters_append, letters_of_word (List.all_eq_true.mp h.word), hrest]
  rfl

theorem ofName_of_marked (h : IsMark mark) (heq : ofName (mark ++ a) = ofName (mark ++ b)) :
    ofName a = ofName b := by
  rw [← String.toList_inj, toList_ofName_marked h, toList_ofName_marked h] at heq
  exact ofName_eq_of_letters (List.append_cancel_left heq)

/-- Names under marks that differ at some place have other identifiers. -/
theorem ofName_marked_ne {other : String} (h : IsMark mark) (h' : IsMark other) {n : Nat}
    (hn : n < mark.toList.length) (hn' : n < other.toList.length)
    (hne : mark.toList[n] ≠ other.toList[n]) (a b : String) :
    ofName (mark ++ a) ≠ ofName (other ++ b) := by
  intro heq
  rw [← String.toList_inj, toList_ofName_marked h, toList_ofName_marked h'] at heq
  have hchar := congrArg (·[n]?) heq
  simp only [List.getElem?_append_left hn, List.getElem?_append_left hn',
    List.getElem?_eq_getElem hn, List.getElem?_eq_getElem hn', Option.some.injEq] at hchar
  exact hne hchar

theorem sum_ne_count (a b : String) : ofName ("__sum_" ++ a) ≠ ofName ("__count_" ++ b) :=
  ofName_marked_ne (n := 2) isMark_sum isMark_count (by decide) (by decide) (by decide) a b

theorem total_ne_sum (a b : String) : ofName (totalMark ++ a) ≠ ofName ("__sum_" ++ b) :=
  ofName_marked_ne (n := 1) isMark_total isMark_sum (by decide) (by decide) (by decide) a b

theorem total_ne_count (a b : String) : ofName (totalMark ++ a) ≠ ofName ("__count_" ++ b) :=
  ofName_marked_ne (n := 1) isMark_total isMark_count (by decide) (by decide) (by decide) a b

end CostQuery.Alias

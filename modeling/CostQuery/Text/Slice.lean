/-! Texts cut at a byte. -/

namespace CostQuery.Text

/-- What is left behind so many bytes, if a character ends there. -/
def charsAfter? : Nat → List Char → Option (List Char)
  | 0, cs => some cs
  | _ + 1, [] => none
  | n + 1, c :: cs =>
    if c.utf8Size ≤ n + 1 then charsAfter? (n + 1 - c.utf8Size) cs else none

def after? (text : String) (bytes : Nat) : Option String :=
  (charsAfter? bytes text.toList).map String.ofList

theorem utf8ByteSize_ofList_cons (c : Char) (cs : List Char) :
    (String.ofList (c :: cs)).utf8ByteSize = c.utf8Size + (String.ofList cs).utf8ByteSize := by
  simp

theorem charsAfter?_cons (n : Nat) (c : Char) (cs : List Char) :
    charsAfter? (c.utf8Size + n) (c :: cs) = charsAfter? n cs := by
  have hpos := Char.utf8Size_pos c
  obtain ⟨k, hk⟩ : ∃ k, c.utf8Size + n = k + 1 := ⟨c.utf8Size + n - 1, by omega⟩
  rw [hk, charsAfter?, if_pos (by omega)]
  congr 1
  omega

theorem charsAfter?_append (front rest : List Char) :
    charsAfter? (String.ofList front).utf8ByteSize (front ++ rest) = some rest := by
  induction front with
  | nil => simp [charsAfter?]
  | cons c front ih =>
    rw [utf8ByteSize_ofList_cons, List.cons_append, charsAfter?_cons, ih]

theorem append_of_charsAfter? {n : Nat} {cs rest : List Char} (h : charsAfter? n cs = some rest) :
    ∃ front, cs = front ++ rest ∧ (String.ofList front).utf8ByteSize = n := by
  fun_induction charsAfter? n cs with
  | case1 cs =>
    obtain rfl := Option.some.inj h
    exact ⟨[], rfl, by simp⟩
  | case2 => cases h
  | case3 n c cs hfits ih =>
    obtain ⟨front, rfl, hsize⟩ := ih h
    refine ⟨c :: front, rfl, ?_⟩
    rw [utf8ByteSize_ofList_cons]
    omega
  | case4 => cases h

/-- A text is cut into what it is put together of, and nowhere else. -/
theorem after?_eq_some_iff {text rest : String} {n : Nat} :
    after? text n = some rest ↔ ∃ front, text = front ++ rest ∧ front.utf8ByteSize = n := by
  constructor
  · intro h
    obtain ⟨cs, hcs, rfl⟩ := Option.map_eq_some_iff.mp h
    obtain ⟨front, hfront, hsize⟩ := append_of_charsAfter? hcs
    refine ⟨String.ofList front, String.toList_inj.mp ?_, hsize⟩
    simpa using hfront
  · rintro ⟨front, rfl, rfl⟩
    have hcut := charsAfter?_append front.toList rest.toList
    rw [String.ofList_toList] at hcut
    rw [after?, String.toList_append, hcut, Option.map_some, String.ofList_toList]

end CostQuery.Text

import CostQuery.Decimal.Style
import Mathlib.Data.List.TakeWhile

/-! Floats in plain form are decimals: digits, and perhaps a point and more digits. -/

namespace CostQuery.Decimal
variable {ds es : List Char}

def isDigits (cs : List Char) : Bool := !cs.isEmpty && cs.all Char.isDigit

/-- Digits, and perhaps a point and more digits. -/
def isDecimal (cs : List Char) : Bool :=
  isDigits (cs.takeWhile Char.isDigit) &&
    match cs.dropWhile Char.isDigit with
    | [] => true
    | c :: fraction => c = '.' && isDigits fraction

theorem isDigits_iff : isDigits ds = true ↔ ds ≠ [] ∧ ∀ d ∈ ds, d.isDigit = true := by
  simp [isDigits]

theorem isDecimal_of_digits (h : isDigits ds = true) : isDecimal ds = true := by
  have hall := (isDigits_iff.mp h).2
  have hdrop : ds.dropWhile Char.isDigit = [] := List.dropWhile_eq_nil_iff.mpr hall
  rw [isDecimal, List.takeWhile_eq_self_iff.mpr hall, hdrop, h]
  rfl

theorem isDecimal_of_point (h : isDigits ds = true) (h' : isDigits es = true) :
    isDecimal (ds ++ '.' :: es) = true := by
  have hall := (isDigits_iff.mp h).2
  have hpoint : Char.isDigit '.' ≠ true := by decide
  have htake : (ds ++ '.' :: es).takeWhile Char.isDigit = ds := by
    rw [List.takeWhile_append_of_pos hall, List.takeWhile_cons_of_neg hpoint, List.append_nil]
  have hdrop : (ds ++ '.' :: es).dropWhile Char.isDigit = '.' :: es := by
    rw [List.dropWhile_append_of_pos hall, List.dropWhile_cons_of_neg hpoint]
  rw [isDecimal, htake, hdrop, h]
  simpa using h'

/-- A decimal begins with a digit, and goes on with digits and a point. -/
theorem isDecimal_cons (h : isDecimal ds = true) : ∃ d rest, ds = d :: rest ∧ d.isDigit = true ∧
    ∀ c ∈ rest, (c.isDigit || c = '.') = true := by
  rw [isDecimal, Bool.and_eq_true] at h
  obtain ⟨hwhole, hrest⟩ := h
  have hsplit := List.takeWhile_append_dropWhile (p := Char.isDigit) (l := ds)
  obtain ⟨hne, hall⟩ := isDigits_iff.mp hwhole
  obtain ⟨d, whole, hd⟩ := List.exists_cons_of_ne_nil hne
  rw [hd] at hall
  obtain ⟨hdigit, hall⟩ := List.forall_mem_cons.mp hall
  rw [hd, List.cons_append] at hsplit
  refine ⟨d, _, hsplit.symm, hdigit, List.forall_mem_append.mpr ⟨fun c hc => ?_, ?_⟩⟩
  · rw [hall c hc]
    rfl
  · split at hrest
    · next hnil => simp [hnil]
    · next c fraction hcons =>
      rw [Bool.and_eq_true, decide_eq_true_eq] at hrest
      rw [hcons]
      refine List.forall_mem_cons.mpr ⟨by simp [hrest.1], fun e he => ?_⟩
      rw [(isDigits_iff.mp hrest.2).2 e he]
      rfl

theorem isDigits_toDigits (n : Nat) : isDigits (Nat.toDigits 10 n) = true :=
  isDigits_iff.mpr
    ⟨Nat.toDigits_ne_nil, fun _ => Nat.isDigit_of_mem_toDigits (by decide) (by decide)⟩

theorem isDecimal_positionalChars (h : isDigits ds = true) (lead : Int) :
    isDecimal (positionalChars ds lead false) = true := by
  obtain ⟨hne, hall⟩ := isDigits_iff.mp h
  have hzeros : ∀ n, ∀ d ∈ zeros n, d.isDigit = true := by
    intro n d hd
    rw [List.eq_of_mem_replicate hd]
    decide
  rw [positionalChars]
  split
  · have hzero : isDigits ['0'] = true := by decide
    refine isDecimal_of_point hzero (isDigits_iff.mpr ⟨?_, ?_⟩)
    · exact List.append_ne_nil_of_right_ne_nil _ hne
    · exact List.forall_mem_append.mpr ⟨hzeros _, hall⟩
  · have hwhole : isDigits
        (ds.take (lead.toNat + 1) ++ zeros (lead.toNat + 1 - ds.length)) = true := by
      refine isDigits_iff.mpr ⟨List.append_ne_nil_of_left_ne_nil (by simpa using hne) _, ?_⟩
      exact List.forall_mem_append.mpr ⟨fun d hd => hall d (List.mem_of_mem_take hd), hzeros _⟩
    simp only
    split
    · simpa using isDecimal_of_digits hwhole
    · next hrest =>
      refine isDecimal_of_point hwhole (isDigits_iff.mpr ⟨by simpa using hrest, fun d hd => ?_⟩)
      exact hall d (List.mem_of_mem_drop hd)

/-- Whatever its bits, a float is written as a decimal after a sign. -/
theorem plain_chars (x : Float) : ∃ ds, isDecimal ds = true ∧
    (plain.chars x = ds ∨ plain.chars x = '-' :: ds) := by
  rw [Style.chars]
  generalize hbody : (if (Binary.ofFloat x).mantissa = 0 then _ else _) = ds
  refine ⟨ds, ?_, ?_⟩
  · rw [← hbody]
    split
    · decide
    · exact isDecimal_positionalChars (isDigits_toDigits _) _
  · cases isNegative x
    · exact Or.inl rfl
    · exact Or.inr rfl

end CostQuery.Decimal

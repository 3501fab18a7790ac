import CostQuery.Record.Basic

/-! Decimals of one value that may have other places. -/

namespace CostQuery.Decimal.Bounded
variable {d e : Bounded}

def signedUnits (d : Bounded) : Int := if d.negative then -d.units else d.units

/-- They are the same number, however many places each has. -/
def Equals (d e : Bounded) : Prop :=
  d.signedUnits * (Nat.pow 10 e.places : Nat) = e.signedUnits * (Nat.pow 10 d.places : Nat)

instance (d e : Bounded) : Decidable (d.Equals e) := inferInstanceAs (Decidable (_ = _))

theorem natAbs_signedUnits (d : Bounded) : d.signedUnits.natAbs = d.units := by
  unfold signedUnits
  split <;> omega

theorem Equals.signedUnits_eq (h : d.Equals e) (hplaces : d.places = e.places) :
    d.signedUnits = e.signedUnits := by
  have hpos : 0 < Nat.pow 10 e.places := Nat.pow_pos (by decide)
  rw [Equals, hplaces] at h
  exact Int.eq_of_mul_eq_mul_right (by omega) h

theorem eq_of_parts (hsign : d.negative = e.negative) (hunits : d.units = e.units)
    (hplaces : d.places = e.places) : d = e := by
  cases d
  cases e
  simp_all

/-- With the same places they are one decimal, or two zeros. -/
theorem Equals.eq_or_zero (h : d.Equals e) (hplaces : d.places = e.places) :
    d = e ∨ d.units = 0 ∧ e.units = 0 := by
  have hsigned := h.signedUnits_eq hplaces
  have hunits : d.units = e.units := by
    rw [← natAbs_signedUnits d, hsigned, natAbs_signedUnits]
  by_cases hzero : d.units = 0
  · exact .inr ⟨hzero, hunits ▸ hzero⟩
  · left
    have hsign : d.negative = e.negative := by
      unfold signedUnits at hsigned
      cases hd : d.negative <;> cases he : e.negative <;> simp [hd, he] at hsigned ⊢ <;> omega
    exact eq_of_parts hsign hunits hplaces

theorem magnitude_of_zero (h : d.units = 0) : d.magnitude = 0 := by
  rw [magnitude, h]
  split
  · rfl
  · rw [Nat.zero_mod, if_pos rfl, Nat.zero_div]
    rfl

theorem toFloat_of_zero (h : d.units = 0) : d.toFloat = 0 ∨ d.toFloat = -0 := by
  rw [toFloat, magnitude_of_zero h]
  split
  · exact .inr rfl
  · exact .inl rfl

end CostQuery.Decimal.Bounded

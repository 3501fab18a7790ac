import CostQuery.Calendar.Date
import CostQuery.Proofs.Decimal.Written
import Mathlib.Data.Nat.Digits.Defs

/-! Every date has a text of its own. -/

namespace CostQuery.Date
variable {n n' width : Nat} {year year' : Int}

theorem digitsValue_padded (width n : Nat) : Decimal.digitsValue (padded width n) = n := by
  have hpadded : padded width n =
      Decimal.zeros (width - (Nat.toDigits 10 n).length) ++ Nat.toDigits 10 n := rfl
  rw [hpadded, Decimal.digitsValue_zeros_append, Decimal.digitsValue_toDigits]

theorem digitFirst_padded (width n : Nat) : Decimal.DigitFirst (padded width n) := by
  obtain ⟨hne, hall⟩ := Decimal.isDigits_iff.mp (Decimal.isDigits_toDigits n)
  refine Decimal.digitFirst_of_isDigits (Decimal.isDigits_iff.mpr ⟨?_, ?_⟩)
  · exact List.append_ne_nil_of_right_ne_nil _ hne
  · exact List.forall_mem_append.mpr ⟨fun c hc => Decimal.isDigit_of_mem_zeros hc, hall⟩

theorem padded_injective (h : padded width n = padded width n') : n = n' := by
  rw [← digitsValue_padded width n, h, digitsValue_padded]

theorem length_padded (hwidth : 0 < width) (h : n < 10 ^ width) :
    (padded width n).length = width := by
  have hle := Nat.toDigits_length 10 n width hwidth h
  have hpadded : (padded width n).length =
      width - (Nat.toDigits 10 n).length + (Nat.toDigits 10 n).length := by
    simp [padded]
  omega

/-- The sign before a year, if it has one. -/
def yearSign (year : Int) : List Char :=
  if year < 0 then ['-'] else if 9999 < year then ['+'] else []

theorem yearSign_eq_minus : yearSign year = ['-'] ↔ year < 0 := by
  unfold yearSign
  split_ifs with hnegative hlong
  · exact iff_of_true rfl hnegative
  · exact iff_of_false (by decide) hnegative
  · exact iff_of_false (by decide) hnegative

theorem yearChars_eq (year : Int) : yearChars year = yearSign year ++ padded 4 year.natAbs := by
  unfold yearChars yearSign
  split_ifs <;> rfl

theorem yearChars_injective (h : yearChars year = yearChars year') : year = year' := by
  have hsign : ∀ year, ∀ c ∈ yearSign year, c.isDigit = false := by
    intro year
    unfold yearSign
    split_ifs <;> simp
  rw [yearChars_eq, yearChars_eq] at h
  obtain ⟨hsame, habs⟩ := Decimal.sign_cancel (hsign year) (hsign year')
    (digitFirst_padded 4 _) (digitFirst_padded 4 _) h
  have hnatAbs := padded_injective habs
  have hnegative : year < 0 ↔ year' < 0 := by
    rw [← yearSign_eq_minus, hsame, yearSign_eq_minus]
  omega

/-- Years have any number of digits. Months and days have two, so that they are found from the end
of the text. -/
theorem text_injective : Function.Injective text := by
  intro d d' h
  have hchars : d.chars .day = d'.chars .day := String.ofList_injective h
  have hlength : ∀ d : Date, (padded 2 d.month).length = 2 ∧ (padded 2 d.day).length = 2 := by
    intro d
    have hdays : daysInMonth d.year d.month ≤ 31 := by
      unfold daysInMonth
      split <;> (try split) <;> omega
    have hmonth := d.month_valid
    have hday := d.day_valid
    exact ⟨length_padded two_pos (by omega), length_padded two_pos (by omega)⟩
  obtain ⟨hmonth, hday⟩ := hlength d
  obtain ⟨hmonth', hday'⟩ := hlength d'
  obtain ⟨hyear, hrest⟩ := List.append_inj' hchars (by simp [hmonth, hday, hmonth', hday'])
  obtain ⟨hmonths, hdays⟩ := List.append_inj (List.cons.inj hrest).2 (by rw [hmonth, hmonth'])
  have hyears := yearChars_injective hyear
  have hmonths' := padded_injective hmonths
  have hdays' := padded_injective (List.cons.inj hdays).2
  cases d
  cases d'
  simp only at hyears hmonths' hdays'
  subst hyears hmonths' hdays'
  rfl

end CostQuery.Date

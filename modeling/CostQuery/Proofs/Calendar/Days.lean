import CostQuery.Calendar.Date
import Mathlib.Algebra.Order.Ring.Int

/-! Days in order: the numbers of days follow the calendar. -/

namespace CostQuery

def daysInYear (year : Int) : Nat := if isLeapYear year then 366 else 365

theorem daysInMonth_le (year : Int) (month : Nat) : daysInMonth year month ≤ 31 := by
  unfold daysInMonth
  split <;> (try split) <;> omega

namespace Date
variable {a b d : Date}

theorem daysBeforeYear_succ (year : Int) :
    daysBeforeYear (year + 1) = daysBeforeYear year + daysInYear year := by
  simp only [daysBeforeYear, daysInYear, isLeapYear, decide_eq_true_eq]
  split <;> omega

theorem daysBeforeYear_mono {y z : Int} (h : y ≤ z) : daysBeforeYear y ≤ daysBeforeYear z := by
  induction z, h using Int.leInduction with
  | base => exact le_rfl
  | succ z _ ih =>
    rw [daysBeforeYear_succ]
    omega

theorem daysOfMonths_succ (year : Int) (n : Nat) :
    daysOfMonths year (n + 1) = daysOfMonths year n + daysInMonth year (n + 1) := rfl

theorem daysOfMonths_mono (year : Int) {m n : Nat} (h : m ≤ n) :
    daysOfMonths year m ≤ daysOfMonths year n := by
  induction n, h using Nat.le_induction with
  | base => exact le_rfl
  | succ n _ ih =>
    rw [daysOfMonths_succ]
    omega

theorem daysOfMonths_twelve (year : Int) : daysOfMonths year 12 = daysInYear year := by
  simp only [daysOfMonths, daysInMonth, daysInYear]
  split <;> rfl

/-- The days of the months up to its own. -/
theorem daysOfMonths_month (d : Date) :
    daysOfMonths d.year d.month = daysOfMonths d.year (d.month - 1) + daysInMonth d.year d.month := by
  have hm := d.month_valid
  obtain ⟨n, hn⟩ : ∃ n, d.month = n + 1 := ⟨d.month - 1, by omega⟩
  rw [hn, daysOfMonths_succ, Nat.add_sub_cancel]

theorem number_le_of_month (d : Date) :
    d.number ≤ daysBeforeYear d.year + daysOfMonths d.year d.month := by
  have hd := d.day_valid
  rw [number, daysOfMonths_month]
  omega

theorem number_le_of_year (d : Date) : d.number ≤ daysBeforeYear (d.year + 1) := by
  have h := number_le_of_month d
  have hm := daysOfMonths_mono d.year d.month_valid.2
  rw [daysOfMonths_twelve] at hm
  rw [daysBeforeYear_succ]
  omega

theorem lt_number (d : Date) : daysBeforeYear d.year < d.number := by
  have hd := d.day_valid
  rw [number]
  omega

theorem number_lt_of_isBefore (h : a.isBefore b = true) : a.number < b.number := by
  rw [isBefore, decide_eq_true_eq] at h
  rcases h with hy | ⟨hy, hm | ⟨hm, hd⟩⟩
  · have h1 := number_le_of_year a
    have h2 := daysBeforeYear_mono (show a.year + 1 ≤ b.year by omega)
    have h3 := lt_number b
    omega
  · have h1 := number_le_of_month a
    have h2 := daysOfMonths_mono a.year (show a.month ≤ b.month - 1 by omega)
    have h3 := b.day_valid
    rw [number, number, ← hy] at *
    omega
  · rw [number, number, hy, hm]
    omega

theorem eq_of_not_isBefore (h : ¬ a.isBefore b = true) (h' : ¬ b.isBefore a = true) : a = b := by
  obtain ⟨y, m, n, hm, hn⟩ := a
  obtain ⟨y', m', n', hm', hn'⟩ := b
  simp only [isBefore, decide_eq_true_eq] at h h'
  obtain rfl : y = y' := by omega
  obtain rfl : m = m' := by omega
  obtain rfl : n = n' := by omega
  rfl

/-- A day is before another if its number is less. -/
theorem isBefore_iff : a.isBefore b = true ↔ a.number < b.number := by
  constructor
  · exact number_lt_of_isBefore
  · intro h
    by_contra hnot
    by_cases hback : b.isBefore a = true
    · have := number_lt_of_isBefore hback
      omega
    · rw [eq_of_not_isBefore hnot hback] at h
      exact lt_irrefl _ h

theorem number_le_iff : a.number ≤ b.number ↔ ¬ b.isBefore a = true := by
  rw [isBefore_iff, not_lt]

/-- The day after. -/
def next (d : Date) : Date :=
  if h : d.day < daysInMonth d.year d.month then
    { d with day := d.day + 1, day_valid := ⟨by omega, h⟩ }
  else if hm : d.month < 12 then
    ⟨d.year, d.month + 1, 1, ⟨by omega, hm⟩, le_rfl, daysInMonth_pos d.year (d.month + 1)⟩
  else ⟨d.year + 1, 1, 1, by decide, le_rfl, daysInMonth_pos (d.year + 1) 1⟩

/-- Numbers of days go up by one each day. -/
theorem number_next (d : Date) : d.next.number = d.number + 1 := by
  have hmonth := daysOfMonths_month d
  have hday := d.day_valid
  unfold next
  split
  · simp only [number]
    omega
  · split
    · simp only [number, Nat.add_sub_cancel]
      omega
    · have hm : d.month = 12 := by
        have := d.month_valid
        omega
      have hyear := daysBeforeYear_succ d.year
      have hzero : daysOfMonths (d.year + 1) (1 - 1) = 0 := rfl
      rw [← daysOfMonths_twelve, ← hm] at hyear
      simp only [number, hzero]
      omega

def SameMonth (a b : Date) : Prop := a.year = b.year ∧ a.month = b.month

theorem monthNumber_eq_iff : a.monthNumber = b.monthNumber ↔ a.SameMonth b := by
  have ha := a.month_valid
  have hb := b.month_valid
  rw [monthNumber, monthNumber, SameMonth]
  constructor
  · intro h
    constructor <;> omega
  · rintro ⟨hy, hm⟩
    rw [hy, hm]

theorem isBefore_of_monthNumber_lt (h : a.monthNumber < b.monthNumber) : a.isBefore b = true := by
  have ha := a.month_valid
  have hb := b.month_valid
  rw [monthNumber, monthNumber] at h
  rw [isBefore, decide_eq_true_eq]
  omega

theorem number_lt_of_monthNumber_lt (h : a.monthNumber < b.monthNumber) : a.number < b.number :=
  isBefore_iff.mp (isBefore_of_monthNumber_lt h)

theorem monthNumber_mono (h : a.number ≤ b.number) : a.monthNumber ≤ b.monthNumber := by
  by_contra hlt
  have := number_lt_of_monthNumber_lt (not_le.mp hlt)
  omega

theorem firstOfMonth_le (h : d.SameMonth a) : a.firstOfMonth.number ≤ d.number := by
  have hd := d.day_valid
  rw [number_le_iff, isBefore, decide_eq_true_eq]
  simp only [firstOfMonth, h.1, h.2]
  omega

theorem le_lastOfMonth (h : d.SameMonth a) : d.number ≤ a.lastOfMonth.number := by
  have hd := d.day_valid
  rw [h.1, h.2] at hd
  rw [number_le_iff, isBefore, decide_eq_true_eq]
  simp only [lastOfMonth, h.1, h.2]
  omega

/-- The days from the first to the last of a month are those in it. -/
theorem sameMonth_iff :
    d.SameMonth a ↔ a.firstOfMonth.number ≤ d.number ∧ d.number ≤ a.lastOfMonth.number := by
  constructor
  · exact fun h => ⟨firstOfMonth_le h, le_lastOfMonth h⟩
  · rintro ⟨h1, h2⟩
    have hlow : a.firstOfMonth.monthNumber ≤ d.monthNumber := monthNumber_mono h1
    have hhigh : d.monthNumber ≤ a.lastOfMonth.monthNumber := monthNumber_mono h2
    exact monthNumber_eq_iff.mp (le_antisymm hhigh hlow)

end Date
end CostQuery

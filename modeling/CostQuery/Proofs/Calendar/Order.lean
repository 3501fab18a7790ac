import CostQuery.Proofs.Calendar.Days
import CostQuery.Proofs.Calendar.Text
import Mathlib.Data.String.Basic

/-! Dates as texts are in the order of the calendar, as long as their years have no sign. -/

namespace CostQuery

section
variable {α : Type} [LinearOrder α] {as bs cs ds : List α}

/-- Heads of one length decide, unless they are the same. -/
theorem append_lt_append_iff (h : as.length = bs.length) :
    as ++ cs < bs ++ ds ↔ as < bs ∨ as = bs ∧ cs < ds := by
  induction as generalizing bs with
  | nil =>
    obtain rfl := List.length_eq_zero_iff.mp h.symm
    simp
  | cons a as ih =>
    cases bs with
    | nil => cases h
    | cons b bs =>
      rw [List.cons_append, List.cons_append, List.cons_lt_cons_iff, List.cons_lt_cons_iff,
        ih (Nat.succ.inj h), List.cons.injEq]
      tauto

end

namespace Decimal
variable {ds es : List Char}

theorem digitsValue_cons (c : Char) (ds : List Char) :
    digitsValue (c :: ds) = 10 ^ ds.length * (c.toNat - '0'.toNat) + digitsValue ds := by
  have hone : digitsValue [c] = c.toNat - '0'.toNat := by
    rw [digitsValue, Nat.ofDigitChars_cons, Nat.ofDigitChars_nil, Nat.mul_zero, Nat.zero_add]
  rw [← List.singleton_append, digitsValue_append, hone]

theorem digit_bounds {c : Char} (h : c.isDigit = true) :
    '0'.toNat ≤ c.toNat ∧ c.toNat ≤ '0'.toNat + 9 :=
  Char.isDigit_iff_toNat.mp h

theorem digitsValue_lt_pow (h : ∀ c ∈ ds, c.isDigit = true) : digitsValue ds < 10 ^ ds.length := by
  induction ds with
  | nil => decide
  | cons c ds ih =>
    obtain ⟨hc, hds⟩ := List.forall_mem_cons.mp h
    have hrest := ih hds
    have hdigit : c.toNat - '0'.toNat ≤ 9 := by
      have := digit_bounds hc
      omega
    have hle := Nat.mul_le_mul_left (10 ^ ds.length) hdigit
    rw [digitsValue_cons, List.length_cons, pow_succ]
    omega

theorem digitsValue_lt_of_lt (hlength : ds.length = es.length) (hds : ∀ c ∈ ds, c.isDigit = true)
    (hes : ∀ c ∈ es, c.isDigit = true) (h : ds < es) : digitsValue ds < digitsValue es := by
  induction ds generalizing es with
  | nil =>
    obtain rfl := List.length_eq_zero_iff.mp hlength.symm
    exact absurd h (List.not_lt_nil [])
  | cons d ds ih =>
    cases es with
    | nil => cases hlength
    | cons e es =>
      obtain ⟨hd, hds⟩ := List.forall_mem_cons.mp hds
      have htail : ∀ c ∈ es, c.isDigit = true := (List.forall_mem_cons.mp hes).2
      have hrest : ds.length = es.length := Nat.succ.inj hlength
      rw [digitsValue_cons, digitsValue_cons, ← hrest]
      rcases List.cons_lt_cons_iff.mp h with hlt | ⟨rfl, hlt⟩
      · have hbound := digitsValue_lt_pow hds
        have hbounds := digit_bounds hd
        have hdigit : d.toNat - '0'.toNat + 1 ≤ e.toNat - '0'.toNat := by
          have : d.toNat < e.toNat := hlt
          omega
        have hmul := Nat.mul_le_mul_left (10 ^ ds.length) hdigit
        rw [Nat.mul_succ] at hmul
        omega
      · have := ih hrest hds htail hlt
        omega

/-- Digits as many as others are in the order of the numbers that they stand for. -/
theorem digits_lt_iff (hlength : ds.length = es.length) (hds : ∀ c ∈ ds, c.isDigit = true)
    (hes : ∀ c ∈ es, c.isDigit = true) : ds < es ↔ digitsValue ds < digitsValue es := by
  refine ⟨digitsValue_lt_of_lt hlength hds hes, fun h => ?_⟩
  rcases lt_trichotomy ds es with hlt | rfl | hlt
  · exact hlt
  · exact absurd h (lt_irrefl _)
  · have := digitsValue_lt_of_lt hlength.symm hes hds hlt
    omega

end Decimal

namespace Date
variable {a b d : Date} {width n m : Nat} {p : Precision}

theorem isDigit_of_mem_padded {c : Char} (h : c ∈ padded width n) : c.isDigit = true := by
  rcases List.mem_append.mp h with h | h
  · exact Decimal.isDigit_of_mem_zeros h
  · exact Decimal.isDigit_of_mem_toDigits h

theorem padded_lt_iff (hwidth : 0 < width) (hn : n < 10 ^ width) (hm : m < 10 ^ width) :
    padded width n < padded width m ↔ n < m := by
  rw [Decimal.digits_lt_iff, digitsValue_padded, digitsValue_padded]
  · rw [length_padded hwidth hn, length_padded hwidth hm]
  · exact fun c => isDigit_of_mem_padded
  · exact fun c => isDigit_of_mem_padded

/-- The year is written without a sign. -/
def PlainYear (d : Date) : Prop := 0 ≤ d.year ∧ d.year ≤ 9999

instance (d : Date) : Decidable d.PlainYear := inferInstanceAs (Decidable (_ ∧ _))

/-- Years, months or days counted, to the precision. -/
def place (d : Date) : Precision → Int
  | .year => d.year
  | .month => d.monthNumber
  | .day => d.number

theorem place_lt_of_year_lt (h : a.year < b.year) (p : Precision) : a.place p < b.place p := by
  cases p with
  | year => exact h
  | month =>
    have ha := a.month_valid
    have hb := b.month_valid
    simp only [place, monthNumber]
    omega
  | day => exact number_lt_of_isBefore (by rw [isBefore, decide_eq_true_eq]; exact Or.inl h)

theorem monthNumber_lt_iff :
    a.monthNumber < b.monthNumber ↔ a.year < b.year ∨ a.year = b.year ∧ a.month < b.month := by
  have ha := a.month_valid
  have hb := b.month_valid
  rw [monthNumber, monthNumber]
  omega

theorem month_day_lt (d : Date) : d.month < 10 ^ 2 ∧ d.day < 10 ^ 2 := by
  have hmonth := d.month_valid
  have hday := d.day_valid
  have hdays := daysInMonth_le d.year d.month
  omega

theorem yearChars_of_plainYear (h : d.PlainYear) : yearChars d.year = padded 4 d.year.toNat := by
  obtain ⟨hlow, hhigh⟩ := h
  have habs : d.year.natAbs = d.year.toNat := by omega
  rw [yearChars, if_neg (by omega), if_neg (by omega), habs]

section
variable (ha : a.PlainYear) (hb : b.PlainYear)
include ha hb

/-- Years of four digits decide, unless they are the same. -/
theorem yearChars_append_lt_iff (cs ds : List Char) :
    yearChars a.year ++ cs < yearChars b.year ++ ds ↔
      a.year < b.year ∨ a.year = b.year ∧ cs < ds := by
  have ⟨halow, hahigh⟩ := ha
  have ⟨hblow, hbhigh⟩ := hb
  have hyear : a.year.toNat < 10 ^ 4 := by omega
  have hyear' : b.year.toNat < 10 ^ 4 := by omega
  have hsame : padded 4 a.year.toNat = padded 4 b.year.toNat ↔ a.year = b.year := by
    constructor
    · intro h
      have := padded_injective h
      omega
    · intro h
      rw [h]
  rw [yearChars_of_plainYear ha, yearChars_of_plainYear hb, append_lt_append_iff, hsame,
    padded_lt_iff four_pos hyear hyear']
  · refine or_congr_left ?_
    omega
  · rw [length_padded four_pos hyear, length_padded four_pos hyear']

theorem chars_lt_iff : a.chars p < b.chars p ↔ a.place p < b.place p := by
  have hmonths : padded 2 a.month = padded 2 b.month ↔ a.month = b.month :=
    ⟨fun h => padded_injective h, fun h => by rw [h]⟩
  obtain ⟨hamonth, haday⟩ := a.month_day_lt
  obtain ⟨hbmonth, hbday⟩ := b.month_day_lt
  cases p with
  | year =>
    have h := yearChars_append_lt_iff ha hb [] []
    rwa [List.append_nil, List.append_nil, or_iff_left fun h => List.not_lt_nil [] h.2] at h
  | month =>
    rw [chars, chars, yearChars_append_lt_iff ha hb, List.cons_lt_cons_iff,
      padded_lt_iff two_pos hamonth hbmonth, place, place, monthNumber_lt_iff]
    simp
  | day =>
    have hlength : (padded 2 a.month).length = (padded 2 b.month).length := by
      rw [length_padded two_pos hamonth, length_padded two_pos hbmonth]
    rw [chars, chars, yearChars_append_lt_iff ha hb, List.cons_lt_cons_iff,
      append_lt_append_iff hlength, List.cons_lt_cons_iff, hmonths,
      padded_lt_iff two_pos hamonth hbmonth, padded_lt_iff two_pos haday hbday, place, place,
      ← isBefore_iff, isBefore, decide_eq_true_eq]
    simp

theorem cut_le_cut_iff : a.cut p ≤ b.cut p ↔ a.place p ≤ b.place p := by
  have h := chars_lt_iff (p := p) hb ha
  rw [← not_lt, ← not_lt, String.lt_iff_toList_lt]
  simpa only [cut, String.toList_ofList] using not_congr h

end

theorem chars_eq_append (d : Date) (p : Precision) :
    ∃ rest, d.chars p = yearChars d.year ++ rest := by
  cases p with
  | year => exact ⟨[], (List.append_nil _).symm⟩
  | month | day => exact ⟨_, rfl⟩

theorem yearChars_signed (h : ¬ d.PlainYear) :
    ∃ c rest, yearChars d.year = c :: rest ∧ c < '0' := by
  rw [yearChars]
  split
  · exact ⟨'-', _, rfl, by decide⟩
  · next hlow =>
    split
    · exact ⟨'+', _, rfl, by decide⟩
    · next hhigh => exact absurd ⟨not_lt.mp hlow, not_lt.mp hhigh⟩ h

/-- The signs come before the digits. -/
theorem cut_lt_cut_of_signed (ha : ¬ a.PlainYear) (hb : b.PlainYear) : a.cut p < b.cut p := by
  obtain ⟨sign, year, hyear, hsign⟩ := yearChars_signed ha
  obtain ⟨digit, year', hyear', hdigit⟩ := digitFirst_padded 4 b.year.toNat
  obtain ⟨rest, hrest⟩ := a.chars_eq_append p
  obtain ⟨rest', hrest'⟩ := b.chars_eq_append p
  have hzero : '0' ≤ digit := (Decimal.digit_bounds hdigit).1
  rw [String.lt_iff_toList_lt, cut, cut, String.toList_ofList, String.toList_ofList, hrest, hrest',
    yearChars_of_plainYear hb, hyear, hyear', List.cons_append, List.cons_append,
    List.cons_lt_cons_iff]
  exact Or.inl (hsign.trans_le hzero)

/-- A first day whose year is too long is before all others. -/
theorem cut_le_cut_iff_right (hb : b.PlainYear) :
    a.cut p ≤ b.cut p ↔ 9999 < a.year ∨ a.place p ≤ b.place p := by
  by_cases ha : a.PlainYear
  · rw [cut_le_cut_iff ha hb]
    refine (or_iff_right ?_).symm
    exact not_lt.mpr ha.2
  · refine iff_of_true (cut_lt_cut_of_signed ha hb).le ?_
    rw [PlainYear, not_and_or, not_le, not_le] at ha
    refine ha.symm.imp_right fun hnegative => ?_
    exact (place_lt_of_year_lt (hnegative.trans_le hb.1) p).le

theorem cut_le_cut_iff_left (ha : a.PlainYear) :
    a.cut p ≤ b.cut p ↔ b.year ≤ 9999 ∧ a.place p ≤ b.place p := by
  by_cases hb : b.PlainYear
  · rw [cut_le_cut_iff ha hb]
    exact (and_iff_right hb.2).symm
  · refine iff_of_false (cut_lt_cut_of_signed hb ha).not_ge ?_
    rintro ⟨hyear, hplace⟩
    have hnegative : b.year < 0 := by
      by_contra hlow
      exact hb ⟨not_lt.mp hlow, hyear⟩
    exact absurd (place_lt_of_year_lt (hnegative.trans_le ha.1) p) (not_lt.mpr hplace)

end Date
end CostQuery

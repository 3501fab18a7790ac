import CostQuery.Proofs.Store.Value
import CostQuery.Sql.Filter
import Mathlib.Data.List.Lex

/-! Months that the dates of a comparison can lie in. Dates and months are compared as texts. -/

namespace CostQuery.Sql

/-- A date at the head of a text: a year of four digits, a month and a day of two. -/
def StartsWithDate (cs : List Char) : Prop :=
  ∃ (year day rest : List Char) (month : Nat),
    (year.length = 4 ∧ year.all Char.isDigit = true) ∧ (1 ≤ month ∧ month ≤ 12) ∧
    (day.length = 2 ∧ day.all Char.isDigit = true) ∧
    cs = year ++ '-' :: (Date.padded 2 month ++ '-' :: (day ++ rest))

section
variable {α : Type} [LinearOrder α] {as bs : List α} {n : Nat}

theorem cons_le_cons_iff {a b : α} : a :: as ≤ b :: bs ↔ a < b ∨ a = b ∧ as ≤ bs := by
  rw [← not_lt, ← not_lt, List.cons_lt_cons_iff, not_or, not_and, not_lt, le_iff_lt_or_eq]
  constructor
  · rintro ⟨h | rfl, ht⟩
    · exact Or.inl h
    · exact Or.inr ⟨rfl, ht rfl⟩
  · rintro (h | ⟨rfl, ht⟩)
    · exact ⟨Or.inl h, fun he => absurd he h.ne'⟩
    · exact ⟨Or.inr rfl, fun _ => ht⟩

theorem nil_le (as : List α) : [] ≤ as := by
  rw [← not_lt]
  exact List.not_lt_nil as

theorem take_le_take (n : Nat) (h : as ≤ bs) : as.take n ≤ bs.take n := by
  induction n generalizing as bs with
  | zero => simp
  | succ n ih =>
    cases as with
    | nil => exact nil_le _
    | cons a as =>
      cases bs with
      | nil => exact absurd (List.nil_lt_cons a as) (not_lt.mpr h)
      | cons b bs =>
        rw [cons_le_cons_iff] at h
        rw [List.take_succ_cons, List.take_succ_cons, cons_le_cons_iff]
        exact h.imp_right fun ⟨he, h⟩ => ⟨he, ih h⟩

theorem take_le_self (n : Nat) (as : List α) : as.take n ≤ as := by
  induction n generalizing as with
  | zero => exact nil_le as
  | succ n ih =>
    cases as with
    | nil => simp
    | cons a as => exact cons_le_cons_iff.mpr (Or.inr ⟨rfl, ih as⟩)

/-- Beyond a common head the tails decide. -/
theorem append_le_append_iff (as : List α) {bs cs : List α} : as ++ bs ≤ as ++ cs ↔ bs ≤ cs := by
  induction as with
  | nil => rfl
  | cons a as ih => simp [cons_le_cons_iff, ih]

end

/-- The month of a stored date follows its year, and is one of the twelve. -/
theorem StartsWithDate.month {cs : List Char} (h : StartsWithDate cs) :
    (cs.take 4).length = 4 ∧
      ∃ m, cs.take 7 = cs.take 4 ++ '-' :: m ∧ ['0', '1'] ≤ m ∧ m ≤ ['1', '2'] := by
  obtain ⟨year, day, rest, month, ⟨hy, -⟩, hm, -, rfl⟩ := h
  have bounds : ∀ n ≤ 12, 1 ≤ n →
      (Date.padded 2 n).length = 2 ∧ ['0', '1'] ≤ Date.padded 2 n ∧
        Date.padded 2 n ≤ ['1', '2'] := by decide
  obtain ⟨hl, hlow, hhigh⟩ := bounds month hm.2 hm.1
  have h4 : (year ++ '-' :: (Date.padded 2 month ++ '-' :: (day ++ rest))).take 4 = year := by
    rw [← hy, List.take_left']
    rfl
  refine ⟨by rw [h4, hy], Date.padded 2 month, ?_, hlow, hhigh⟩
  rw [h4, List.take_append, hy, List.take_of_length_le (by omega)]
  simp [hl]

namespace Months

/-- The comparison allows the month. -/
def Admits (m : Months) (op : Comparison) (month : String) : Prop :=
  match op with
  | .gt | .gte => m.first ≤ month
  | .lt | .lte => month ≤ m.last
  | .eq | .notEq => m.first ≤ month ∧ month ≤ m.last

theorem length_of_isMonth {cs : List Char} (h : isMonth cs = true) : cs.length = 7 := by
  unfold isMonth at h
  split at h
  · rfl
  · simp at h

/-- A literal is a year alone, or begins with a month. -/
theorem ofLiteral?_text {t : String} {m : Months} (h : ofLiteral? (.text t) = some m) :
    (t.toList.length = 4 ∧ m.first.toList = t.toList ++ ['-', '0', '1'] ∧
      m.last.toList = t.toList ++ ['-', '1', '2']) ∨
    (isMonth (t.toList.take 7) = true ∧ m.first.toList = t.toList.take 7 ∧
      m.last.toList = t.toList.take 7) := by
  simp only [ofLiteral?, Literal.asText?, Option.bind_eq_bind, Option.bind_some] at h
  split at h
  · next hy =>
    simp only [isYear, Bool.and_eq_true, decide_eq_true_eq] at hy
    obtain rfl := Option.some.inj h
    exact Or.inl ⟨hy.1, by simp, by simp⟩
  · split at h
    · next hm =>
      obtain rfl := Option.some.inj h
      exact Or.inr ⟨hm, by simp, by simp⟩
    · cases h

end Months

/-- A year that is compared with a month of it comes before the month, but the later months of the
year lie in later partitions. -/
def CutShort (p : Precision) (op : Comparison) (literal date : List Char) : Prop :=
  p = .year ∧ (op = .lt ∨ op = .lte) ∧ isMonth (literal.take 7) = true ∧
    literal.take 4 = date.take 4 ∧ literal.take 7 < date.take 7

section
variable {date t : List Char} {p : Precision} {op : Comparison}

theorem four_le_width (p : Precision) : 4 ≤ p.width := by cases p <;> decide

theorem take_width_take (p : Precision) (cs : List Char) :
    (cs.take p.width).take 4 = cs.take 4 := by
  rw [List.take_take, Nat.min_eq_left (four_le_width p)]

theorem take_width_take_seven (hp : p ≠ .year) (cs : List Char) :
    (cs.take p.width).take 7 = cs.take 7 := by
  rw [List.take_take, Nat.min_eq_left (by cases p <;> simp [Precision.width] at *)]

/-- Dates from a year on lie in its months and later ones. -/
theorem year_first_le (hd : StartsWithDate date) (ht : t.length = 4)
    (h : t ≤ date.take p.width) : t ++ ['-', '0', '1'] ≤ date.take 7 := by
  obtain ⟨-, m, hm, hlow, -⟩ := hd.month
  have hyear : t ≤ date.take 4 := by
    have := take_le_take 4 h
    rwa [take_width_take, List.take_of_length_le ht.le] at this
  by_contra hlt
  rw [not_le] at hlt
  have hback : date.take 4 ≤ t := by
    have := take_le_take 4 hlt.le
    rwa [List.take_take, List.take_left' ht] at this
  rw [hm, le_antisymm hback hyear, ← not_le, append_le_append_iff] at hlt
  exact hlt (cons_le_cons_iff.mpr (Or.inr ⟨rfl, hlow⟩))

/-- Dates up to a year lie in its months and earlier ones. -/
theorem le_year_last (hd : StartsWithDate date) (ht : t.length = 4)
    (h : date.take p.width ≤ t) : date.take 7 ≤ t ++ ['-', '1', '2'] := by
  obtain ⟨-, m, hm, -, hhigh⟩ := hd.month
  have hyear : date.take 4 ≤ t := by
    have := take_le_take 4 h
    rwa [take_width_take, List.take_of_length_le ht.le] at this
  by_contra hlt
  rw [not_le] at hlt
  have hback : t ≤ date.take 4 := by
    have := take_le_take 4 hlt.le
    rwa [List.take_take, List.take_left' ht] at this
  rw [hm, le_antisymm hyear hback, ← not_le, append_le_append_iff] at hlt
  exact hlt (cons_le_cons_iff.mpr (Or.inr ⟨rfl, hhigh⟩))

/-- A year comes before every month of it. -/
theorem year_lt_month (ht : isMonth (t.take 7) = true) (h : t.take 4 = date.take 4) :
    date.take 4 < t := by
  refine lt_of_le_of_ne (h ▸ take_le_self 4 t) ?_
  intro he
  have h7 := Months.length_of_isMonth ht
  have h4 := congrArg List.length he
  simp only [List.length_take] at h7 h4
  omega

/-- Dates from a month on, or from a day of it, lie in it and in later ones. -/
theorem month_first_le (ht : isMonth (t.take 7) = true) (h : t ≤ date.take p.width) :
    t.take 7 ≤ date.take 7 := by
  by_cases hp : p = .year
  · subst hp
    by_contra hlt
    rw [not_le] at hlt
    have hback : date.take 4 ≤ t.take 4 := by
      have := take_le_take 4 hlt.le
      rwa [List.take_take, List.take_take] at this
    have hyear : t.take 4 ≤ date.take 4 := by
      have := take_le_take 4 h
      rwa [take_width_take] at this
    exact absurd h (not_le.mpr (year_lt_month ht (le_antisymm hyear hback)))
  · have := take_le_take 7 h
    rwa [take_width_take_seven hp] at this

/-- Dates up to a month, or up to a day of it, lie in it and in earlier ones, save for years. -/
theorem le_month_last (h : date.take p.width ≤ t)
    (hc : ¬ (p = .year ∧ t.take 4 = date.take 4 ∧ t.take 7 < date.take 7)) :
    date.take 7 ≤ t.take 7 := by
  by_cases hp : p = .year
  · subst hp
    by_contra hlt
    rw [not_le] at hlt
    have hback : t.take 4 ≤ date.take 4 := by
      have := take_le_take 4 hlt.le
      rwa [List.take_take, List.take_take] at this
    have hyear : date.take 4 ≤ t.take 4 := by
      have := take_le_take 4 h
      rwa [take_width_take] at this
    exact hc ⟨rfl, le_antisymm hback hyear, hlt⟩
  · have := take_le_take 7 h
    rwa [take_width_take_seven hp] at this

end

/-- The head of a stored date, of the width of a precision. -/
def headOf (p : Precision) (date : String) : String := String.ofList (date.toList.take p.width)

def monthOf (date : String) : String := headOf .month date

namespace Months
variable {date t : String} {p : Precision} {op : Comparison} {m : Months}

/-- A date that meets a comparison lies in a month that the comparison allows, unless the
comparison cuts a year short. -/
theorem admits_of_holds (hd : StartsWithDate date.toList) (hm : ofLiteral? (.text t) = some m)
    (hop : op ≠ .notEq) (h : op.holds (headOf p date) t = true)
    (hc : ¬ CutShort p op t.toList date.toList) : m.Admits op (monthOf date) := by
  have low : t ≤ headOf p date → m.first ≤ monthOf date := by
    intro h
    rw [String.le_iff_toList_le, headOf, String.toList_ofList] at h
    rw [String.le_iff_toList_le, monthOf, headOf, String.toList_ofList]
    rcases ofLiteral?_text hm with ⟨ht, hf, -⟩ | ⟨ht, hf, -⟩
    · rw [hf]
      exact year_first_le hd ht h
    · rw [hf]
      exact month_first_le ht h
  have high : headOf p date ≤ t → (op = .lt ∨ op = .lte ∨ headOf p date = t) →
      monthOf date ≤ m.last := by
    intro h hor
    rw [String.le_iff_toList_le, headOf, String.toList_ofList] at h
    rw [String.le_iff_toList_le, monthOf, headOf, String.toList_ofList]
    rcases ofLiteral?_text hm with ⟨ht, -, hl⟩ | ⟨ht, -, hl⟩
    · rw [hl]
      exact le_year_last hd ht h
    · rw [hl]
      apply le_month_last h
      rintro ⟨hp, h4, h7⟩
      subst hp
      rcases hor with rfl | rfl | he
      · exact hc ⟨rfl, Or.inl rfl, ht, h4, h7⟩
      · exact hc ⟨rfl, Or.inr rfl, ht, h4, h7⟩
      · have hlt := year_lt_month ht h4
        rw [← he, headOf, String.toList_ofList] at hlt
        exact lt_irrefl _ hlt
  cases op with
  | eq =>
    simp only [Comparison.holds, decide_eq_true_eq] at h
    exact ⟨low h.ge, high h.le (Or.inr (Or.inr h))⟩
  | notEq => exact absurd rfl hop
  | lt =>
    simp only [Comparison.holds, decide_eq_true_eq] at h
    exact high h.le (Or.inl rfl)
  | lte =>
    simp only [Comparison.holds, decide_eq_true_eq] at h
    exact high h (Or.inr (Or.inl rfl))
  | gt =>
    simp only [Comparison.holds, decide_eq_true_eq] at h
    exact low h.le
  | gte =>
    simp only [Comparison.holds, decide_eq_true_eq] at h
    exact low h

/-- A comparison that cuts a year short is met, but does not allow the month. -/
theorem holds_of_cutShort (hm : ofLiteral? (.text t) = some m)
    (hc : CutShort p op t.toList date.toList) :
    op.holds (headOf p date) t = true ∧ ¬ m.Admits op (monthOf date) := by
  obtain ⟨rfl, hop, ht, h4, h7⟩ := hc
  have hlt : headOf .year date < t := by
    rw [String.lt_iff_toList_lt, headOf, String.toList_ofList]
    exact year_lt_month ht h4
  have hlast : ¬ monthOf date ≤ m.last := by
    rw [String.le_iff_toList_le, monthOf, headOf, String.toList_ofList, not_le]
    rcases ofLiteral?_text hm with ⟨ht', -, -⟩ | ⟨-, -, hl⟩
    · have := length_of_isMonth ht
      rw [List.length_take] at this
      omega
    · rw [hl]
      exact h7
  rcases hop with rfl | rfl
  · exact ⟨by simpa only [Comparison.holds, decide_eq_true_eq] using hlt, hlast⟩
  · exact ⟨by simpa only [Comparison.holds, decide_eq_true_eq] using hlt.le, hlast⟩

end Months
end CostQuery.Sql

import CostQuery.Proofs.Calendar.Days
import CostQuery.Proofs.Outcome
import CostQuery.Query.Validate
import Mathlib.Data.List.Infix
import Mathlib.Data.List.TakeWhile

/-! Date windows cover their bounds, save for a last year in a window of months. -/

namespace CostQuery

namespace DateText
variable {cs rest : List Char} {n limit : Nat}

theorem number_suffix (h : number? limit cs = some (n, rest)) : rest <:+ cs := by
  simp only [number?] at h
  split at h
  · cases h
  · simp only [Option.some.injEq, Prod.mk.injEq] at h
    rw [← h.2]
    exact List.drop_suffix _ _

theorem dropBlanks_suffix (cs : List Char) : Text.dropBlanks cs <:+ cs := List.dropWhile_suffix _

theorem part_suffix (h : part? cs = some (n, rest)) : rest <:+ cs :=
  (number_suffix h).trans (dropBlanks_suffix cs)

theorem year_suffix {y : Int} (h : year? cs = some (y, rest)) : rest <:+ cs := by
  refine List.IsSuffix.trans ?_ (dropBlanks_suffix cs)
  simp only [year?] at h
  split at h
  · next signed hs =>
    simp only [Option.map_eq_some_iff, Prod.exists, Prod.mk.injEq] at h
    obtain ⟨n, after, hn, -, rfl⟩ := h
    rw [hs]
    exact (number_suffix hn).trans (List.suffix_cons _ _)
  · next signed hs =>
    simp only [Option.map_eq_some_iff, Prod.exists, Prod.mk.injEq] at h
    obtain ⟨n, after, hn, -, rfl⟩ := h
    rw [hs]
    exact (number_suffix hn).trans (List.suffix_cons _ _)
  · simp only [Option.map_eq_some_iff, Prod.exists, Prod.mk.injEq] at h
    obtain ⟨n, after, hn, -, rfl⟩ := h
    exact number_suffix hn

theorem dash_some (h : dash? cs = some rest) : cs = '-' :: rest := by
  unfold dash? at h
  split at h
  · rw [Option.some.inj h]
  · cases h

theorem ofParts_some {y : Int} {m : Nat} {d : Date} (h : Date.ofParts? y m n = some d) :
    d.year = y ∧ d.month = m ∧ d.day = n := by
  rw [Date.ofParts?] at h
  split at h
  · obtain rfl := Option.some.inj h
    exact ⟨rfl, rfl, rfl⟩
  · cases h

/-- A date ends with a dash and its day. -/
theorem date_day {d : Date} (h : date? cs = some d) :
    ∃ rest, '-' :: rest <:+ cs ∧ part? rest = some (d.day, []) := by
  simp only [date?, Option.bind_eq_bind, Option.bind_eq_some_iff, Prod.exists] at h
  obtain ⟨y, cs1, hy, cs2, hd1, m, cs3, hm, cs4, hd2, n, cs5, hn, h⟩ := h
  split at h
  · next hempty =>
    obtain rfl := List.isEmpty_iff.mp hempty
    refine ⟨cs4, ?_, ?_⟩
    · rw [← dash_some hd2]
      refine (part_suffix hm).trans ((List.suffix_cons '-' cs2).trans ?_)
      rw [← dash_some hd1]
      exact year_suffix hy
    · rw [(ofParts_some h).2.2]
      exact hn
  · cases h

theorem dash_notMem_part (h : part? cs = some (n, [])) : '-' ∉ cs := by
  simp only [part?, number?] at h
  split at h
  · cases h
  · simp only [Option.some.injEq, Prod.mk.injEq, List.drop_eq_nil_iff] at h
    have hall : ((Text.dropBlanks cs).take 2).takeWhile Char.isDigit = Text.dropBlanks cs :=
      ((List.takeWhile_prefix _).trans (List.take_prefix _ _)).eq_of_length_le h.2
    intro hmem
    rw [← List.takeWhile_append_dropWhile (p := Text.isBlank) (l := cs)] at hmem
    rcases List.mem_append.mp hmem with hmem | hmem
    · exact absurd (List.mem_takeWhile_imp hmem) (by decide)
    · rw [← Text.dropBlanks, ← hall] at hmem
      exact absurd (List.mem_takeWhile_imp hmem) (by decide)

/-- A month with the first day appended to it names that day. -/
theorem day_of_first {d : Date} (h : date? (cs ++ ['-', '0', '1']) = some d) : d.day = 1 := by
  obtain ⟨rest, hsuffix, hpart⟩ := date_day h
  have hdash := dash_notMem_part hpart
  have hrest : rest = ['0', '1'] := by
    rcases List.suffix_or_suffix_of_suffix hsuffix (List.suffix_append cs ['-', '0', '1']) with
      hs | hs
    · simpa [List.suffix_cons_iff] using hs
    · rcases List.suffix_cons_iff.mp hs with he | hs
      · exact (List.cons.inj he).2.symm
      · exact absurd (hs.subset (by simp)) hdash
  subst hrest
  have : part? ['0', '1'] = some (1, []) := by decide
  rw [this, Option.some.injEq, Prod.mk.injEq] at hpart
  exact hpart.1.symm

end DateText
namespace DateBound
variable {b : DateBound} {d : Date} {text : String}

/-- The day lies in the year, in the month, or is the day that the bound gives. -/
def Covers (b : DateBound) (d : Date) : Prop :=
  match b.precision with
  | .year => d.year = b.first.year
  | .month => d.SameMonth b.first
  | .day => d = b.first

structure IsFirst (b : DateBound) (d : Date) : Prop where
  covered : b.Covers d
  least : ∀ d', b.Covers d' → d.number ≤ d'.number

structure IsLast (b : DateBound) (d : Date) : Prop where
  covered : b.Covers d
  greatest : ∀ d', b.Covers d' → d'.number ≤ d.number

/-- A year starts in January, and a month on its first day. -/
theorem first_of_ofText (h : ofText? text = some b) :
    match b.precision with
    | .year => b.first.month = 1 ∧ b.first.day = 1
    | .month => b.first.day = 1
    | .day => True := by
  rw [ofText?] at h
  split at h
  · simp only [Option.bind_eq_bind, Option.bind_eq_some_iff, Option.pure_def,
      Option.some.injEq] at h
    obtain ⟨y, -, d, hd, rfl⟩ := h
    exact (DateText.ofParts_some hd).2
  · obtain ⟨d, hd, rfl⟩ := Option.map_eq_some_iff.mp h
    exact DateText.day_of_first hd
  · obtain ⟨d, hd, rfl⟩ := Option.map_eq_some_iff.mp h
    trivial
  · cases h

theorem isFirst_first (h : ofText? text = some b) : b.IsFirst b.first := by
  have hfirst := first_of_ofText h
  obtain ⟨first, precision⟩ := b
  cases precision with
  | year =>
    refine ⟨rfl, fun d hd => ?_⟩
    have hm := d.month_valid
    have hday := d.day_valid
    have hyear : d.year = first.year := hd
    have hjanuary : first.month = 1 ∧ first.day = 1 := hfirst
    simp only [Date.number_le_iff, Date.isBefore, decide_eq_true_eq]
    omega
  | month =>
    refine ⟨⟨rfl, rfl⟩, fun d hd => ?_⟩
    have hday := d.day_valid
    have hmonth : d.year = first.year ∧ d.month = first.month := hd
    have hone : first.day = 1 := hfirst
    simp only [Date.number_le_iff, Date.isBefore, decide_eq_true_eq]
    omega
  | day =>
    refine ⟨rfl, fun d hd => ?_⟩
    rw [show d = first from hd]

theorem isLast_last (b : DateBound) : b.IsLast b.last := by
  obtain ⟨first, precision⟩ := b
  cases precision with
  | year =>
    refine ⟨rfl, fun d hd => ?_⟩
    have hm := d.month_valid
    have hday : d.day ≤ 31 := d.day_valid.2.trans (daysInMonth_le d.year d.month)
    have hyear : d.year = first.year := hd
    simp only [Date.number_le_iff, Date.isBefore, decide_eq_true_eq, last, Date.lastOfYear]
    omega
  | month => exact ⟨⟨rfl, rfl⟩, fun d hd => Date.le_lastOfMonth hd⟩
  | day =>
    refine ⟨rfl, fun d hd => ?_⟩
    rw [show d = first from hd]
    exact le_rfl

end DateBound

namespace Window

def Contains (w : Window) (d : Date) : Prop :=
  w.start.number ≤ d.number ∧ d.number ≤ w.finish.number

instance (w : Window) (d : Date) : Decidable (w.Contains d) :=
  inferInstanceAs (Decidable (_ ∧ _))

variable {granularity : Granularity} {limits : RangeLimits} {limit : Int} {a b : DateBound}
  {w : Window} {text : String}

theorem ofMonths_ok (h : ofMonths granularity limit a b = .ok w) :
    a.first.monthNumber < b.first.monthNumber ∧
      w = ⟨a.first.firstOfMonth, b.first.lastOfMonth⟩ := by
  simp only [ofMonths] at h
  split at h
  · cases h
  · split at h
    · cases h
    · obtain rfl := Except.ok.inj h
      exact ⟨by omega, rfl⟩

theorem ofDays_ok (h : ofDays granularity limit a b = .ok w) :
    a.first.isBefore b.last = true ∧ w = ⟨a.first, b.last⟩ ∧
      (granularity = .daily → b.last.number - a.first.number ≤ limit) := by
  simp only [ofDays] at h
  split at h
  · cases h
  · next hbefore =>
    split at h
    · cases h
    · next hlimit =>
      obtain rfl := Except.ok.inj h
      refine ⟨by simpa using hbefore, rfl, fun hdaily => ?_⟩
      rw [not_and, not_lt] at hlimit
      exact hlimit hdaily

/-- The last day of a bound lies in the month of its first day, save for years. -/
theorem sameMonth_last (hb : DateBound.ofText? text = some b) :
    b.last.SameMonth b.first ↔ b.precision ≠ .year := by
  have hfirst := DateBound.first_of_ofText hb
  obtain ⟨first, precision⟩ := b
  cases precision with
  | year =>
    have hjanuary : first.month = 1 ∧ first.day = 1 := hfirst
    simp [DateBound.last, Date.lastOfYear, Date.SameMonth, hjanuary.1]
  | month => exact ⟨fun _ => by simp, fun _ => ⟨rfl, rfl⟩⟩
  | day => exact ⟨fun _ => by simp, fun _ => ⟨rfl, rfl⟩⟩

theorem first_le_last (b : DateBound) : b.first.number ≤ b.last.number := by
  have hcovered : b.Covers b.first := by
    cases hp : b.precision <;> simp [DateBound.Covers, hp, Date.SameMonth]
  exact (DateBound.isLast_last b).greatest b.first hcovered

/-- A window of months has the whole first month, and the last month as far as its first bound. -/
theorem ofMonths_covers (hb : DateBound.ofText? text = some b)
    (h : ofMonths granularity limit a b = .ok w) :
    w.Contains a.first ∧ (w.Contains b.last ↔ b.precision ≠ .year) ∧
      (∀ d, w.Contains d → a.first.number ≤ d.number ∧ d.number ≤ b.last.number ∨
        (d.SameMonth a.first ∨ d.SameMonth b.last)) ∧
      w.start.isBefore w.finish = true := by
  obtain ⟨hlt, rfl⟩ := ofMonths_ok h
  have hstart : a.first.firstOfMonth.number ≤ a.first.number := Date.firstOfMonth_le ⟨rfl, rfl⟩
  have hfinish : b.first.number ≤ b.first.lastOfMonth.number := Date.le_lastOfMonth ⟨rfl, rfl⟩
  have hfirst : a.first.number < b.first.firstOfMonth.number :=
    Date.number_lt_of_monthNumber_lt hlt
  have hmonth : b.first.firstOfMonth.number ≤ b.first.number := Date.firstOfMonth_le ⟨rfl, rfl⟩
  have hlast := first_le_last b
  refine ⟨⟨hstart, by simp only; omega⟩, ?_, ?_, ?_⟩
  · rw [← sameMonth_last hb, Date.sameMonth_iff]
    refine and_congr_left fun _ => ?_
    constructor <;> (intro _; simp only at *; omega)
  · intro d hd
    by_cases hlow : a.first.number ≤ d.number
    · by_cases hhigh : d.number ≤ b.last.number
      · exact Or.inl ⟨hlow, hhigh⟩
      · have hd' : d.SameMonth b.first :=
          Date.sameMonth_iff.mpr ⟨by omega, hd.2⟩
        have hb' : b.last.SameMonth b.first :=
          Date.sameMonth_iff.mpr ⟨by omega, le_trans (by omega) hd.2⟩
        exact Or.inr (Or.inr ⟨hd'.1.trans hb'.1.symm, hd'.2.trans hb'.2.symm⟩)
    · refine Or.inr (Or.inl (Date.sameMonth_iff.mpr ⟨hd.1, ?_⟩))
      have : a.first.number ≤ a.first.lastOfMonth.number := Date.le_lastOfMonth ⟨rfl, rfl⟩
      omega
  · exact Date.isBefore_iff.mpr (by simp only; omega)

theorem ofDays_covers (h : ofDays granularity limit a b = .ok w) :
    w.Contains a.first ∧ w.Contains b.last ∧
      (∀ d, w.Contains d → a.first.number ≤ d.number ∧ d.number ≤ b.last.number) ∧
      w.start.isBefore w.finish = true ∧
      (granularity = .daily → w.finish.number - w.start.number ≤ limit) := by
  obtain ⟨hbefore, rfl, hlimit⟩ := ofDays_ok h
  have hlt := Date.isBefore_iff.mp hbefore
  exact ⟨⟨le_rfl, hlt.le⟩, ⟨hlt.le, le_rfl⟩, fun d hd => hd, hbefore, hlimit⟩

end Window

theorem require_ok {α : Type} {fault : RequestFault} {o : Option α} {a : α}
    (h : require fault o = .ok a) : o = some a := by
  cases o with
  | none => cases h
  | some a => rw [Except.ok.inj h]

/-- A window covers its bounds from the first day to the last, save for the last year of a window of
months, and it has no more than the months of the two days besides. -/
theorem window_covers {granularity : Granularity} {limits : RangeLimits} {start finish : String}
    {w : Window} (h : windowOf granularity limits start finish = .ok w) :
    ∃ a b : DateBound, DateBound.ofText? start = some a ∧ DateBound.ofText? finish = some b ∧
      ∃ first last : Date, a.IsFirst first ∧ b.IsLast last ∧ w.Contains first ∧
        (w.Contains last ↔ ¬ (granularity.windowPrecision = .month ∧ b.precision = .year)) ∧
        (∀ d, w.Contains d → first.number ≤ d.number ∧ d.number ≤ last.number ∨
          granularity.windowPrecision = .month ∧ (d.SameMonth first ∨ d.SameMonth last)) ∧
        w.start.isBefore w.finish = true ∧
        (granularity = .daily → w.finish.number - w.start.number ≤ limits.dailyMaxDays) := by
  obtain ⟨a, ha, h⟩ := bind_ok.mp h
  obtain ⟨b, hb, h⟩ := bind_ok.mp h
  have ha := require_ok ha
  have hb := require_ok hb
  refine ⟨a, b, ha, hb, a.first, b.last, DateBound.isFirst_first ha, DateBound.isLast_last b, ?_⟩
  have h := mapError_ok h
  cases granularity with
  | monthly | accumulated =>
    obtain ⟨hfirst, hlast, hdays, hbefore⟩ := Window.ofMonths_covers hb h
    refine ⟨hfirst, ?_, ?_, hbefore, ?_⟩
    · simpa [Granularity.windowPrecision] using hlast
    · simpa [Granularity.windowPrecision] using hdays
    · intro hdaily
      cases hdaily
  | daily | yearly =>
    obtain ⟨hfirst, hlast, hdays, hbefore, hlimit⟩ := Window.ofDays_covers h
    refine ⟨hfirst, ?_, fun d hd => Or.inl (hdays d hd), hbefore, hlimit⟩
    simpa [Granularity.windowPrecision] using hlast

/-- The window of a month that ends on a leap day. -/
theorem window_covers_leap_day :
    ∃ w b last, windowOf .monthly {} "2024-01-15" "2024-02" = .ok w ∧
      DateBound.ofText? "2024-02" = some b ∧ b.IsLast last ∧ w.Contains last := by
  have h : windowOf .monthly {} "2024-01-15" "2024-02" = .ok _ := rfl
  obtain ⟨a, b, -, hb, first, last, -, hlast, -, hiff, -⟩ := window_covers h
  refine ⟨_, b, last, h, hb, hlast, hiff.mpr ?_⟩
  have hmonth : (DateBound.ofText? "2024-02").map (·.precision) = some .month := rfl
  rw [hb, Option.map_some, Option.some.injEq] at hmonth
  rw [hmonth]
  simp

/-- Of a last year no more than its January is in a window of months. -/
theorem not_window_covers_year :
    ∃ w b, windowOf .monthly ⟨31, 36⟩ "2024-03" "2025" = .ok w ∧
      DateBound.ofText? "2025" = some b ∧ ∃ last, b.IsLast last ∧ ¬ w.Contains last := by
  refine ⟨_, _, rfl, rfl, _, DateBound.isLast_last _, ?_⟩
  decide

end CostQuery

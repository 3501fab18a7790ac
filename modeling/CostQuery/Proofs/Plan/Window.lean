import CostQuery.Proofs.Calendar.Cover
import CostQuery.Proofs.Calendar.Order
import CostQuery.Proofs.Filter.Conditions
import CostQuery.Proofs.Plan.Kept

/-! The days that the window of a plan selects. -/

namespace CostQuery

namespace Date
variable {a d : Date}

theorem firstOfMonth_le_iff :
    a.firstOfMonth.monthNumber ≤ d.monthNumber ↔ a.firstOfMonth.number ≤ d.number := by
  constructor
  · intro h
    rcases h.lt_or_eq with hlt | heq
    · exact (number_lt_of_monthNumber_lt hlt).le
    · exact firstOfMonth_le (monthNumber_eq_iff.mp heq.symm)
  · exact monthNumber_mono

theorem le_lastOfMonth_iff :
    d.monthNumber ≤ a.lastOfMonth.monthNumber ↔ d.number ≤ a.lastOfMonth.number := by
  constructor
  · intro h
    rcases h.lt_or_eq with hlt | heq
    · exact (number_lt_of_monthNumber_lt hlt).le
    · exact le_lastOfMonth (monthNumber_eq_iff.mp heq)
  · exact monthNumber_mono

end Date

namespace Window
variable {w : Window} {p : Precision} {d : Date}

/-- Its days are told from the others by their dates cut to the precision. -/
structure Whole (w : Window) (p : Precision) : Prop where
  years_le : w.start.year ≤ w.finish.year
  start_le_iff : ∀ d : Date, w.start.place p ≤ d.place p ↔ w.start.number ≤ d.number
  le_finish_iff : ∀ d : Date, d.place p ≤ w.finish.place p ↔ d.number ≤ w.finish.number

/-- Windows of months begin and end with a month. -/
theorem whole_of_windowOf {granularity : Granularity} {limits : RangeLimits}
    {start finish : String} (h : windowOf granularity limits start finish = .ok w) :
    w.Whole granularity.windowPrecision := by
  obtain ⟨-, -, -, -, -, -, -, -, -, -, -, hbefore, -⟩ := window_covers h
  have hyears : w.start.year ≤ w.finish.year := by
    rw [Date.isBefore, decide_eq_true_eq] at hbefore
    omega
  obtain ⟨a, -, h⟩ := bind_ok.mp h
  obtain ⟨b, -, h⟩ := bind_ok.mp h
  have h := mapError_ok h
  cases granularity with
  | monthly | accumulated =>
    obtain ⟨-, rfl⟩ := ofMonths_ok h
    exact ⟨hyears, fun d => Date.firstOfMonth_le_iff, fun d => Date.le_lastOfMonth_iff⟩
  | daily | yearly => exact ⟨hyears, fun d => Iff.rfl, fun d => Iff.rfl⟩

/-- A last year of more than four digits comes before all years without a sign. -/
theorem cut_between_iff (hw : w.Whole p) (hd : d.PlainYear) :
    (w.start.cut p ≤ d.cut p ∧ d.cut p ≤ w.finish.cut p) ↔
      w.Contains d ∧ w.finish.year ≤ 9999 := by
  have hyears := hw.years_le
  rw [Date.cut_le_cut_iff_right hd, Date.cut_le_cut_iff_left hd, hw.start_le_iff,
    hw.le_finish_iff, Contains]
  constructor
  · rintro ⟨hstart, hyear, hfinish⟩
    refine ⟨⟨hstart.resolve_left ?_, hfinish⟩, hyear⟩
    omega
  · rintro ⟨⟨hstart, hfinish⟩, hyear⟩
    exact ⟨Or.inr hstart, hyear, hfinish⟩

/-- The last day whose year has four digits. -/
def endOfYears : Date := Date.lastOfYear ⟨9999, 9, 9, by decide, by decide⟩

/-- Of a window that goes on beyond the years of four digits, their last day is in it. -/
theorem contains_endOfYears (hstart : w.start.year ≤ 9999) (hfinish : 9999 < w.finish.year) :
    w.Contains endOfYears := by
  have hmonth := w.start.month_valid
  have hday := w.start.day_valid
  have hdays := daysInMonth_le w.start.year w.start.month
  rw [Contains, Date.number_le_iff, Date.number_le_iff, Date.isBefore, Date.isBefore,
    decide_eq_true_eq, decide_eq_true_eq, endOfYears, Date.lastOfYear]
  simp only
  omega

end Window

/-- The date of the record, cut to the precision, is that of the day. -/
def Fields.BilledOn (f : Fields) (p : Precision) (d : Date) : Prop :=
  f (Column.ofKey p.column) = .text (d.cut p)

theorem Predicate.holds_compare_text {g : Engine} {f : Fields} {c : Column} {s : String}
    (hf : f c = .text s) (op : Comparison) (text : String) :
    (Predicate.compare c op (.text text)).holds (Meets g.matching f) ↔ op.holds s text = true := by
  rw [holds_of_isTest rfl]
  cases op <;> simp [Meets, hf, Engine.matching, Value.ordered?, Comparison.holds]

namespace AnalyzeQuery
variable {q : AnalyzeQuery} {f : Fields} {d : Date}

/-- The record meets the tests for the window. -/
def Selects (q : AnalyzeQuery) (g : Engine) (f : Fields) : Prop :=
  ∀ t ∈ q.windowTests, t.holds (Predicate.Meets g.matching f)

theorem selects_iff_cut (g : Engine) (hf : Fields.BilledOn f q.granularity.windowPrecision d) :
    q.Selects g f ↔
      q.window.start.cut q.granularity.windowPrecision ≤ d.cut q.granularity.windowPrecision ∧
        d.cut q.granularity.windowPrecision ≤
          q.window.finish.cut q.granularity.windowPrecision := by
  rw [Selects, windowTests, List.forall_mem_cons, List.forall_mem_singleton,
    Predicate.holds_compare_text hf, Predicate.holds_compare_text hf, Comparison.holds,
    Comparison.holds, decide_eq_true_eq, decide_eq_true_eq]

theorem whole_window {limits : RangeLimits} {r : Request} (h : ofRequest limits r = .ok q) :
    q.window.Whole q.granularity.windowPrecision := by
  simp only [ofRequest, bind_ok] at h
  obtain ⟨name, -, granularity, -, start, -, finish, -, window, hwindow, fields, -, h⟩ := h
  split at h
  · cases h
  · simp only [bind_ok, pure_ok] at h
    obtain ⟨filter, -, filterOr, -, sort, -, page, -, unwind, -, rfl⟩ := h
    exact Window.whole_of_windowOf hwindow

/-- The conditions go on after the window, as parts of one conjunction. -/
theorem predicate_eq (q : AnalyzeQuery) : q.predicate? = some (.and (q.windowTests ++
    (Predicate.ofFilters? q.filter q.filterOr).toList.flatMap Predicate.conjuncts)) := by
  rw [predicate?, Predicate.all?, List.flatMap_append]
  rfl

/-- Of plans of accepted requests: a record is matched if it meets the tests for the window and the
conditions. The tests select the days of the window, unless it ends in a year of more than four
digits: then they select none. -/
theorem window_selects {limits : RangeLimits} {r : Request} {plan : AnalyzePlan}
    (hq : ofRequest limits r = .ok q) (h : AnalyzePlan.ofQuery q = .ok plan) :
    (∃ p, plan.stages.findSome? Stage.match? = some p ∧
      p.conjuncts = q.windowTests ++
        (Predicate.ofFilters? q.filter q.filterOr).toList.flatMap Predicate.conjuncts ∧
      ∀ met, p.holds met ↔ (∀ t ∈ q.windowTests, t.holds met) ∧
        ∀ filters ∈ Predicate.ofFilters? q.filter q.filterOr, filters.holds met) ∧
    (∀ g f d, Fields.BilledOn f q.granularity.windowPrecision d → d.PlainYear →
      (q.Selects g f ↔ q.window.Contains d ∧ q.window.finish.year ≤ 9999)) ∧
    (∀ g, (∀ f d, Fields.BilledOn f q.granularity.windowPrecision d → d.PlainYear →
      (q.Selects g f ↔ q.window.Contains d)) ↔
        (q.window.start.year ≤ 9999 → q.window.finish.year ≤ 9999)) := by
  have hwhole := whole_window hq
  have hselects : ∀ g f d, Fields.BilledOn f q.granularity.windowPrecision d → d.PlainYear →
      (q.Selects g f ↔ q.window.Contains d ∧ q.window.finish.year ≤ 9999) := by
    intro g f d hf hd
    rw [selects_iff_cut g hf, Window.cut_between_iff hwhole hd]
  refine ⟨?_, hselects, ?_⟩
  · obtain ⟨-, rfl⟩ := AnalyzePlan.ofQuery_ok h
    refine ⟨_, (q.match_stages q.draft).trans q.predicate_eq, rfl, fun met => ?_⟩
    rw [Predicate.holds_iff_conjuncts, Predicate.conjuncts, List.forall_mem_append]
    refine and_congr_right fun _ => ?_
    simp only [List.forall_mem_flatMap, ← Predicate.holds_iff_conjuncts, Option.mem_toList,
      Option.mem_def]
  · intro g
    constructor
    · intro hall hstart
      by_contra hfinish
      rw [not_le] at hfinish
      have hd := Window.contains_endOfYears hstart hfinish
      have hf : Fields.BilledOn (fun _ => .text (Window.endOfYears.cut _))
        q.granularity.windowPrecision Window.endOfYears := rfl
      have hplain : Window.endOfYears.PlainYear := by decide
      have hselected := (hall _ _ hf hplain).mpr hd
      have := ((hselects g _ _ hf hplain).mp hselected).2
      omega
    · intro hyears f d hf hd
      rw [hselects g f d hf hd, and_iff_left_iff_imp]
      intro hcontains
      refine hyears ?_
      by_contra hstart
      have := Date.place_lt_of_year_lt (hd.2.trans_lt (not_le.mp hstart)) .day
      exact absurd hcontains.1 (not_le.mpr this)

/-- A leap day is in the window of its month, and is selected. -/
theorem window_selects_leapDay :
    ∃ plan, AnalyzePlan.ofQuery regionQuery = .ok plan ∧ regionQuery.window.Contains leapDay ∧
      ∀ g, regionQuery.Selects g fun _ => .text (leapDay.cut .day) := by
  have h : AnalyzePlan.ofQuery regionQuery = .ok _ := rfl
  obtain ⟨-, hselects, -⟩ := window_selects ofRequest_regionRequest h
  have hcontains : regionQuery.window.Contains leapDay := by decide
  have hbilled : Fields.BilledOn (fun _ => .text (leapDay.cut .day)) .day leapDay := rfl
  have hplain : leapDay.PlainYear := by decide
  exact ⟨_, h, hcontains, fun g =>
    (hselects g _ leapDay hbilled hplain).mpr ⟨hcontains, by decide⟩⟩

/-- From the last day of the years of four digits to the day after it. -/
def longYearRequest : Request :=
  { regionRequest with start := some "9999-12-31", finish := some "+10000-1-1" }

def longYearQuery : AnalyzeQuery :=
  { regionQuery with window := ⟨Window.endOfYears, Window.endOfYears.next⟩ }

/-- The end of the window is written with a sign, which comes before every digit. -/
theorem longYearQuery_selects_none :
    ofRequest {} longYearRequest = .ok longYearQuery ∧
      (∃ plan, AnalyzePlan.ofQuery longYearQuery = .ok plan) ∧
      longYearQuery.window.Contains Window.endOfYears ∧
      ∀ g f, Fields.BilledOn f .day Window.endOfYears → ¬ longYearQuery.Selects g f := by
  refine ⟨rfl, ⟨_, rfl⟩, by decide, fun g f hf hselected => ?_⟩
  have hcut := ((selects_iff_cut g hf).mp hselected).2
  revert hcut
  rw [String.le_iff_toList_le]
  decide

end AnalyzeQuery
end CostQuery

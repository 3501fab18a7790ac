/-! Calendar days, by the Gregorian rules in every year. -/

namespace CostQuery

def isLeapYear (year : Int) : Bool :=
  decide (year % 4 = 0 ∧ (year % 100 ≠ 0 ∨ year % 400 = 0))

def daysInMonth (year : Int) (month : Nat) : Nat :=
  match month with
  | 2 => if isLeapYear year then 29 else 28
  | 4 | 6 | 9 | 11 => 30
  | _ => 31

theorem daysInMonth_pos (year : Int) (month : Nat) : 1 ≤ daysInMonth year month := by
  unfold daysInMonth
  split <;> (try split) <;> omega

structure Date where
  year : Int
  month : Nat
  day : Nat
  month_valid : 1 ≤ month ∧ month ≤ 12
  day_valid : 1 ≤ day ∧ day ≤ daysInMonth year month
deriving DecidableEq

namespace Date

def ofParts? (year : Int) (month day : Nat) : Option Date :=
  if h : (1 ≤ month ∧ month ≤ 12) ∧ 1 ≤ day ∧ day ≤ daysInMonth year month then
    some ⟨year, month, day, h.1, h.2⟩
  else none

def isBefore (a b : Date) : Bool :=
  decide (a.year < b.year ∨
    (a.year = b.year ∧ (a.month < b.month ∨ (a.month = b.month ∧ a.day < b.day))))

/-- Days before the first of January. -/
def daysBeforeYear (year : Int) : Int :=
  let past := year - 1
  365 * past + past / 4 - past / 100 + past / 400

/-- Days of the first months of a year. -/
def daysOfMonths (year : Int) : Nat → Nat
  | 0 => 0
  | n + 1 => daysOfMonths year n + daysInMonth year (n + 1)

/-- Days counted from the last day of the year before year one. -/
def number (d : Date) : Int :=
  daysBeforeYear d.year + daysOfMonths d.year (d.month - 1) + d.day

/-- Months counted from January of year zero. -/
def monthNumber (d : Date) : Int := d.year * 12 + (d.month - 1 : Nat)

def firstOfMonth (d : Date) : Date :=
  { d with day := 1, day_valid := ⟨Nat.le_refl 1, daysInMonth_pos d.year d.month⟩ }

def lastOfMonth (d : Date) : Date :=
  { d with
    day := daysInMonth d.year d.month
    day_valid := ⟨daysInMonth_pos d.year d.month, Nat.le_refl _⟩ }

def lastOfYear (d : Date) : Date := ⟨d.year, 12, 31, by decide, by simp [daysInMonth]⟩

end Date

/-- How much of a date a billed column holds. -/
inductive Precision where
  | year
  | month
  | day
deriving DecidableEq

namespace Precision

def all : List Precision := [.year, .month, .day]

def name : Precision → String
  | .year => "year"
  | .month => "month"
  | .day => "day"

/-- Characters of a date of four-digit years. -/
def width : Precision → Nat
  | .year => 4
  | .month => 7
  | .day => 10

/-- The stored column that holds dates cut to the precision. -/
def column : Precision → String
  | .year => "billed_year"
  | .month => "billed_month"
  | .day => "billed_date"

def ofColumn? (column : String) : Option Precision := all.find? (·.column = column)

end Precision

namespace Date

def padded (width n : Nat) : List Char :=
  let digits := Nat.toDigits 10 n
  List.replicate (width - digits.length) '0' ++ digits

/-- Years beyond four digits, and those before year zero, have a sign. -/
def yearChars (year : Int) : List Char :=
  if year < 0 then '-' :: padded 4 year.natAbs
  else if 9999 < year then '+' :: padded 4 year.natAbs
  else padded 4 year.natAbs

def chars (d : Date) : Precision → List Char
  | .year => yearChars d.year
  | .month => yearChars d.year ++ '-' :: padded 2 d.month
  | .day => yearChars d.year ++ '-' :: (padded 2 d.month ++ '-' :: padded 2 d.day)

/-- The text of a date cut to a precision. -/
def cut (d : Date) (p : Precision) : String := String.ofList (d.chars p)

def text (d : Date) : String := d.cut .day

end Date
end CostQuery

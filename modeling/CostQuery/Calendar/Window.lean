import CostQuery.Calendar.Bound
import CostQuery.Calendar.Granularity
import CostQuery.Settings

/-! Date windows: first and last day of a query, both included. -/

namespace CostQuery

structure Window where
  start : Date
  finish : Date

inductive WindowFault where
  | notAfterStart
  | tooManyMonths (granularity : Granularity) (limit : Int)
  | tooManyDays (limit : Int)

def WindowFault.message : WindowFault → String
  | .notAfterStart => "end must be after start"
  | .tooManyMonths granularity limit =>
    granularity.name ++ " granularity allows at most " ++ toString limit ++ " months"
  | .tooManyDays limit => "DAILY granularity allows at most " ++ toString limit ++ " days"

namespace Window

/-- Whole months, from the month of one bound to the month of the other. -/
def ofMonths (granularity : Granularity) (limit : Int) (start finish : DateBound) :
    Except WindowFault Window :=
  let span := finish.first.monthNumber - start.first.monthNumber
  if span ≤ 0 then .error .notAfterStart
  else if limit < span then .error (.tooManyMonths granularity limit)
  else .ok ⟨start.first.firstOfMonth, finish.first.lastOfMonth⟩

/-- Days, from the first of one bound to the last of the other. -/
def ofDays (granularity : Granularity) (limit : Int) (start finish : DateBound) :
    Except WindowFault Window :=
  let last := finish.last
  if !start.first.isBefore last then .error .notAfterStart
  else if granularity = .daily ∧ limit < last.number - start.first.number then
    .error (.tooManyDays limit)
  else .ok ⟨start.first, last⟩

def ofBounds (granularity : Granularity) (limits : RangeLimits) (start finish : DateBound) :
    Except WindowFault Window :=
  match granularity.windowPrecision with
  | .month => ofMonths granularity limits.monthlyMaxMonths start finish
  | _ => ofDays granularity limits.dailyMaxDays start finish

end Window
end CostQuery

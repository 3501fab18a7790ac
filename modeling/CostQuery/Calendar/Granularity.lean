import CostQuery.Calendar.Date

/-! Sizes of the time buckets of an aggregation. -/

namespace CostQuery

inductive Granularity where
  | daily
  | monthly
  | yearly
  | accumulated
deriving DecidableEq

namespace Granularity

def all : List Granularity := [.daily, .monthly, .yearly, .accumulated]

def name : Granularity → String
  | .daily => "DAILY"
  | .monthly => "MONTHLY"
  | .yearly => "YEARLY"
  | .accumulated => "ACCUMULATED"

/-- Names are read without regard to the case of ASCII letters. -/
def ofName? (name : String) : Option Granularity :=
  let wanted := name.toList.map Char.toUpper
  all.find? fun g => g.name.toList = wanted

/-- The dates that rows are grouped by, if they are. -/
def bucket? : Granularity → Option Precision
  | .daily => some .day
  | .monthly => some .month
  | .yearly => some .year
  | .accumulated => none

/-- The precision to which the date window is compared. -/
def windowPrecision : Granularity → Precision
  | .monthly | .accumulated => .month
  | .daily | .yearly => .day

end Granularity
end CostQuery

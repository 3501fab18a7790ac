/-! Aggregates over the rows of a group. -/

namespace CostQuery

inductive Aggregate where
  | sum
  | average
  | max
  | min
  | count
  | push
  | addToSet
deriving DecidableEq

namespace Aggregate

def all : List Aggregate := [.sum, .average, .max, .min, .count, .push, .addToSet]

def name : Aggregate → String
  | .sum => "sum"
  | .average => "average"
  | .max => "max"
  | .min => "min"
  | .count => "count"
  | .push => "push"
  | .addToSet => "add_to_set"

def ofName? (name : String) : Option Aggregate := all.find? (·.name = name)

/-- Its value is a number, so that groups have a total. -/
def isNumeric : Aggregate → Bool
  | .sum | .average | .max | .min | .count => true
  | .push | .addToSet => false

end Aggregate
end CostQuery

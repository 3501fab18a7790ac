import CostQuery.Filter.Literal
import CostQuery.Filter.Operator
import CostQuery.Filter.RelativeTime

/-! Conditions on one column. -/

namespace CostQuery

/-- What a column is compared with, in the shape that its operator takes. -/
inductive Operand where
  | scalar (value : Literal)
  | list (values : List Literal)
  | flag (value : Bool)
  | relative (value : RelativeTime)

structure Condition where
  key : String
  operator : Operator
  operand : Operand

end CostQuery

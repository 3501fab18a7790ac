import CostQuery.Column
import CostQuery.Query.Select

/-! Computed columns over stored columns. -/

namespace CostQuery

inductive Computed where
  | column (column : Column)
  | literal (value : Literal)
  | arithmetic (op : Arithmetic) (operands : List Computed)
  /-- The number of items in a list column. -/
  | size (column : Column)

mutual

def Computed.ofSelect : SelectExpr → Computed
  | .field key => .column (Column.ofKey key)
  | .literal value => .literal value
  | .arithmetic op operands => .arithmetic op (computedOperands operands)
  | .size key => .size (Column.ofKey key)

def computedOperands : List SelectExpr → List Computed
  | [] => []
  | e :: rest => Computed.ofSelect e :: computedOperands rest

end

end CostQuery

import CostQuery.Plan.Computed
import CostQuery.Sql.Column

/-! Computed columns as SQL expressions. -/

namespace CostQuery.Sql

/-- Division by zero gives null. -/
def applied (op : Arithmetic) (left right : Expr) : Expr :=
  match op with
  | .divide => .arithmetic .divide left (.call .nullif [right, .int 0])
  | op => .arithmetic op left right

/-- Operands from the left. -/
def chained (op : Arithmetic) : List Expr → Compiled Expr
  | [] => .error .noOperands
  | first :: rest => .ok (rest.foldl (applied op) first)

/-- A missing list has no items. -/
def sizeOf (list : Expr) : Expr := .ifThenElse (.isNull list false) (.int 0) (.call .size [list])

namespace Reader

mutual

def computed (r : Reader) : Computed → Compiled Expr
  | .column c => r.column c
  | .literal l => .ok (.literal l)
  | .size c => do return sizeOf (← r.column c)
  | .arithmetic op operands => do chained op (← r.computedAll operands)

def computedAll (r : Reader) : List Computed → Compiled (List Expr)
  | [] => .ok []
  | e :: rest => do return (← r.computed e) :: (← r.computedAll rest)

end

end Reader
end CostQuery.Sql

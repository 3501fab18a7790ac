import CostQuery.Filter.Literal
import CostQuery.Filter.Operator
import CostQuery.Filter.RelativeTime
import CostQuery.Query.Select

/-! Aggregation pipelines of the document store, as typed syntax. -/

namespace CostQuery.Pipeline

inductive Expr where
  /-- The value at a path of the document. -/
  | path (path : String)
  | now
  | null
  | bool (value : Bool)
  | int (value : Int)
  | text (value : String)
  | emptyList
  /-- A value kept from being read as an expression. -/
  | literal (value : Literal)
  | object (members : List (String × Expr))
  | ifNull (value default : Expr)
  | cond (test yes no : Expr)
  | compare (op : Comparison) (left right : Expr)
  | arithmetic (op : Arithmetic) (left right : Expr)
  | size (list : Expr)
  | toDate (value : Expr)
  /-- The start of the day of a date. -/
  | startOfDay (date : Expr)
  | dateAdd (date : Expr) (unit : TimeUnit) (amount : Int)

/-- What one field of a document must meet. -/
inductive FieldTest where
  | isNull
  | notNull
  | compare (op : Comparison) (value : Literal)
  | oneOf (values : List Literal)
  | noneOf (values : List Literal)
  | regex (pattern : String)
  /-- The pattern matches somewhere, in either case of letters. -/
  | contains (pattern : String)
  | lacks (pattern : String)

inductive Match where
  | field (key : String) (test : FieldTest)
  | expr (expr : Expr)
  | and (parts : List Match)
  | or (parts : List Match)

inductive Accumulator where
  | sum (input : Expr)
  | avg (input : Expr)
  | max (input : Expr)
  | min (input : Expr)
  | push (input : Expr)
  | addToSet (input : Expr)

/-- What becomes of a member in a projection. -/
inductive Shown where
  | drop
  | keep
  | expr (expr : Expr)

inductive Stage where
  | unwind (path : String)
  | «match» (test : Match)
  /-- The key of a group, without members where all rows are one group. -/
  | group (key : List (String × Expr)) (accumulators : List (String × Accumulator))
  | project (members : List (String × Shown))
  /-- Each key, and whether it descends. -/
  | sort (keys : List (String × Bool))
  | skip (count : Nat)
  | limit (count : Nat)

end CostQuery.Pipeline

import CostQuery.Filter.Literal
import CostQuery.Filter.Operator
import CostQuery.Filter.RelativeTime
import CostQuery.Query.Select
import CostQuery.Sql.Name

/-! SQL expressions and statements, as typed syntax. Text of requests occurs in them only as
literals, patterns, and keys of maps and structs. -/

namespace CostQuery.Sql

inductive ColumnType where
  | decimal (precision scale : Nat)
  | string
  | timestamp

inductive Function where
  | substring
  | coalesce
  | nullif
  | size
  | dateFormat
  | addMonths
  | dateTrunc
  | sum
  | avg
  | max
  | min
  | count
  | arrayAgg
  | collectSet

inductive Expr where
  | column (name : Name)
  | literal (value : Literal)
  /-- Every column, or every row of a count. -/
  | star
  | now
  | today
  | never
  /-- The value under a key of a map. -/
  | subscript (base : Expr) (key : String)
  | call (function : Function) (args : List Expr)
  | cast (value : Expr) (type : ColumnType)
  | compare (op : Comparison) (left right : Expr)
  | arithmetic (op : Arithmetic) (left right : Expr)
  | isNull (value : Expr) (negated : Bool)
  | oneOf (value : Expr) (items : List Literal) (negated : Bool)
  /-- Matches a pattern of `LIKE` in either case of letters. -/
  | ilike (value : Expr) (pattern : String) (negated : Bool)
  | rlike (value : Expr) (pattern : String)
  | and (parts : List Expr)
  | or (parts : List Expr)
  | ifThenElse (test yes no : Expr)
  /-- Over the rows that agree on the columns, all rows if there are none. -/
  | over (value : Expr) (partition : List Name)
  | interval (amount : Nat) (unit : TimeUnit)
  | struct (slots : List (String × Expr))

namespace Expr

def text (s : String) : Expr := .literal (.text s)

def int (n : Int) : Expr := .literal (.int n)

def ofName (name : String) : Compiled Expr := (Name.ofText name).map .column

end Expr

inductive Source where
  | table (parts : List Name)
  | subquery (name : Name)

/-- An output of a select; without a name of its own it keeps the name of its column. -/
structure Item where
  expr : Expr
  name : Option Name

inductive Grouping where
  | none
  /-- By every item that is no aggregate. -/
  | all
  | keys (names : List Name)

structure OrderItem where
  expr : Expr
  desc : Bool

structure Select where
  distinct : Bool := false
  items : List Item
  source : Source
  /-- A list whose items are spread over rows. -/
  explode : Option Expr := none
  filter : Option Expr := none
  grouping : Grouping := .none
  order : List OrderItem := []
  limit : Option Nat := none
  offset : Option Nat := none

/-- Named subqueries, and the select that uses them. -/
structure Statement where
  subqueries : List (Name × Select) := []
  body : Select

/-! Names that statements give themselves. -/

def unwoundName : Name := ⟨"_unwound", by decide⟩

def unwindName : Name := ⟨"_unwind", by decide⟩

def baseName : Name := ⟨"base_query", by decide⟩

def facetName : Name := ⟨"fg_query", by decide⟩

def totalCountName : Name := ⟨"total_count", by decide⟩

def windowCountName : Name := ⟨"__total_count", by decide⟩

def valuesName : Name := ⟨"Values", by decide⟩

end CostQuery.Sql

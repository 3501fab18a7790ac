import CostQuery.Filter.Predicate
import CostQuery.Sql.Column
import CostQuery.Text.Escape

/-! Predicates as SQL tests. A test of a billed date has beside it the test of the partitions that
its dates can lie in. -/

namespace CostQuery.Sql

/-- The first and the last month of the dates that a literal stands for. -/
structure Months where
  first : String
  last : String
deriving DecidableEq

def isYear (cs : List Char) : Bool := decide (cs.length = 4) && cs.all Char.isDigit

def isMonth (cs : List Char) : Bool :=
  match cs with
  | [a, b, c, d, '-', e, f] => [a, b, c, d, e, f].all Char.isDigit
  | _ => false

/-- Of a year its twelve months, of anything that begins with a month that month. -/
def Months.ofLiteral? (value : Literal) : Option Months := do
  let text ← value.asText?
  let month := text.toList.take 7
  if isYear text.toList then some ⟨text ++ "-01", text ++ "-12"⟩
  else if isMonth month then some ⟨String.ofList month, String.ofList month⟩
  else none

/-- The months, given the expression of the month. -/
def Months.within (m : Months) (month : Expr) : Expr :=
  if m.first = m.last then .compare .eq month (.text m.first)
  else .and [.compare .gte month (.text m.first), .compare .lte month (.text m.last)]

def Months.bounds (m : Months) (op : Comparison) (month : Expr) : Expr :=
  match op with
  | .gt | .gte => .compare .gte month (.text m.first)
  | .lt | .lte => .compare .lte month (.text m.last)
  | .eq | .notEq => m.within month

def isDateColumn (c : Column) : Bool := c.sub.isNone && (Precision.ofColumn? c.root).isSome

namespace Reader

/-- The test of a partition that a comparison of a date implies, if it implies any. -/
def comparePartition (r : Reader) (c : Column) (op : Comparison) (value : Literal) :
    Compiled (Option Expr) :=
  if !isDateColumn c || op = .notEq then .ok none
  else match Months.ofLiteral? value with
    | none => .ok none
    | some months => r.partition.map fun month => some (months.bounds op month)

/-- Every value must be of known months, or rows that match could be missed. -/
def listPartition (r : Reader) (c : Column) (values : List Literal) : Compiled (Option Expr) :=
  if !isDateColumn c then .ok none
  else match values.mapM Months.ofLiteral? with
    | none => .ok none
    | some months => r.partition.map fun month =>
      if months.all fun m => m.first = m.last then
        some (.oneOf month ((months.map (·.first)).eraseDups.map .text) false)
      else some (.or (months.map (·.within month)))

end Reader

def withPartition (test : Expr) : Option Expr → Expr
  | some partition => .and [test, partition]
  | none => test

/-- A moment relative to now. -/
def momentOf (t : RelativeTime) : Expr :=
  let anchor := if t.dayStart then .call .dateTrunc [.text "DAY", .now] else .now
  match t.offset with
  | none => anchor
  | some (amount, unit) =>
    .arithmetic (if amount < 0 then .subtract else .add) anchor (.interval amount.natAbs unit)

/-- The pattern of texts that have the text in them. -/
def containing (text : String) : String := "%" ++ Text.escape Text.likeSpecial text ++ "%"

namespace Reader

mutual

def filter (r : Reader) : Predicate → Compiled Expr
  | .isNull c => do return .isNull (← r.tested c) false
  | .isNotNull c => do return .isNull (← r.tested c) true
  | .compare c op value => do
    let test := Expr.compare op (← r.tested c) (.literal value)
    return withPartition test (← r.comparePartition c op value)
  | .regex c pattern => do return .rlike (← r.tested c) pattern
  | .contains c text negated => do return .ilike (← r.tested c) (containing text) negated
  | .oneOf c values true => do return .oneOf (← r.tested c) values true
  | .oneOf c values false => do
    let test := Expr.oneOf (← r.tested c) values false
    return withPartition test (← r.listPartition c values)
  | .datetime c op text => do
    return .compare op (.cast (← r.tested c) .timestamp) (.cast (.text text) .timestamp)
  | .timediff c op t => do return .compare op (.cast (← r.tested c) .timestamp) (momentOf t)
  | .and parts => do return .and (← r.filters parts)
  | .or parts => do return .or (← r.filters parts)
  | .never => .ok .never

def filters (r : Reader) : List Predicate → Compiled (List Expr)
  | [] => .ok []
  | p :: rest => do return (← r.filter p) :: (← r.filters rest)

end

/-- This month and the month before. -/
def recentMonths (r : Reader) : Compiled Expr := do
  return .compare .gte (← r.partition)
    (.call .dateFormat [.call .addMonths [.today, .int (-1)], .text "yyyy-MM"])

end Reader
end CostQuery.Sql

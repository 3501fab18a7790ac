import CostQuery.Filter.Predicate
import CostQuery.Pipeline.Basic
import CostQuery.Text.Escape

/-! Predicates as tests of documents. -/

namespace CostQuery.Pipeline

/-- The column's value as a date. -/
def dateOf (column : Column) : Expr := .toDate (.path column.key)

def momentOf (t : RelativeTime) : Expr :=
  let anchor := if t.dayStart then .startOfDay .now else .now
  match t.offset with
  | none => anchor
  | some (amount, unit) => .dateAdd anchor unit amount

mutual

/-- Null differs from nothing: a test for another value never holds of null. -/
def Match.ofPredicate : Predicate → Match
  | .isNull c => .field c.key .isNull
  | .isNotNull c => .field c.key .notNull
  | .compare c .notEq value => .field c.key (.noneOf [value, .null])
  | .compare c op value => .field c.key (.compare op value)
  | .regex c pattern => .field c.key (.regex pattern)
  | .contains c text false => .field c.key (.contains (Text.escape Text.regexSpecial text))
  | .contains c text true => .field c.key (.lacks (Text.escape Text.regexSpecial text))
  | .oneOf c values false => .field c.key (.oneOf values)
  | .oneOf c values true => .field c.key (.noneOf (values ++ [.null]))
  | .datetime c op text => .expr (.compare op (dateOf c) (.toDate (.text text)))
  | .timediff c op t => .expr (.compare op (dateOf c) (momentOf t))
  | .and parts => .and (matchesOf parts)
  | .or parts => .or (matchesOf parts)
  | .never => .expr (.bool false)

def matchesOf : List Predicate → List Match
  | [] => []
  | p :: rest => Match.ofPredicate p :: matchesOf rest

end

end CostQuery.Pipeline

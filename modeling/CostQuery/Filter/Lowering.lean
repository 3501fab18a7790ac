import CostQuery.Filter.Predicate

/-! Predicates made from conditions. A condition that asks for nothing leaves none. -/

namespace CostQuery
namespace Predicate

/-- At least one of the parts. -/
def any (parts : List Predicate) : Predicate :=
  match parts with
  | [] => .never
  | [p] => p
  | parts => .or parts

def equality (column : Column) (negated : Bool) (value : Literal) : Predicate :=
  match value.isNull, negated with
  | true, false => .isNull column
  | true, true => .isNotNull column
  | false, false => .compare column .eq value
  | false, true => .compare column .notEq value

/-- Null among the values is a test of its own: no list holds it. -/
def membership (column : Column) (negated : Bool) (values : List Literal) : Predicate :=
  match values.filter (!·.isNull), values.any (·.isNull), negated with
  | [], false, _ => .never
  | [], true, false => .isNull column
  | [], true, true => .isNotNull column
  | known, false, negated => .oneOf column known negated
  | known, true, false => .or [.oneOf column known false, .isNull column]
  | known, true, true => .and [.oneOf column known true, .isNotNull column]

def knownTexts (values : List Literal) : List String :=
  (values.filter (!·.isNull)).map Literal.toText

/-- An ordering, or a match, against null asks for nothing; so does an operand of another shape
than the operator takes. -/
def ofCondition? (c : Condition) : Option Predicate :=
  let column := Column.ofKey c.key
  match c.operator, c.operand with
  | .eq, .scalar v => some (equality column false v)
  | .not, .scalar v => some (equality column true v)
  | .lt, .scalar v => if v.isNull then none else some (.compare column .lt v)
  | .lte, .scalar v => if v.isNull then none else some (.compare column .lte v)
  | .gt, .scalar v => if v.isNull then none else some (.compare column .gt v)
  | .gte, .scalar v => if v.isNull then none else some (.compare column .gte v)
  | .regex, .scalar v => if v.isNull then none else some (.regex column v.toText)
  | .exists, .flag true => some (.isNotNull column)
  | .exists, .flag false => some (.isNull column)
  | .contain, .scalar v => if v.isNull then none else some (.contains column v.toText false)
  | .notContain, .scalar v => if v.isNull then none else some (.contains column v.toText true)
  | .in, .list vs => some (membership column false vs)
  | .notIn, .list vs => some (membership column true vs)
  | .containIn, .list vs => some (any ((knownTexts vs).map (.contains column · false)))
  | .notContainIn, .list vs => all? ((knownTexts vs).map (.contains column · true))
  | .regexIn, .list vs => some (any ((knownTexts vs).map (.regex column ·)))
  | .datetimeGt, .scalar (.text t) => some (.datetime column .gt t)
  | .datetimeGte, .scalar (.text t) => some (.datetime column .gte t)
  | .datetimeLt, .scalar (.text t) => some (.datetime column .lt t)
  | .datetimeLte, .scalar (.text t) => some (.datetime column .lte t)
  | .timediffGt, .relative t => some (.timediff column .gt t)
  | .timediffGte, .relative t => some (.timediff column .gte t)
  | .timediffLt, .relative t => some (.timediff column .lt t)
  | .timediffLte, .relative t => some (.timediff column .lte t)
  | _, _ => none

/-- The alternatives count as one more condition, if any of them asks for something. -/
def alternatives? (filterOr : List Condition) : Option Predicate :=
  match filterOr.filterMap ofCondition? with
  | [] => none
  | parts => some (any parts)

/-- Every condition, and at least one of the alternatives. -/
def ofFilters? (filter filterOr : List Condition) : Option Predicate :=
  all? (filter.filterMap ofCondition? ++ (alternatives? filterOr).toList)

end Predicate
end CostQuery

import CostQuery.Column
import CostQuery.Filter.Condition

/-! Predicates: what a row must meet, with every case of null spelled out. -/

namespace CostQuery

inductive Predicate where
  | isNull (column : Column)
  | isNotNull (column : Column)
  /-- The value is not null. -/
  | compare (column : Column) (op : Comparison) (value : Literal)
  | regex (column : Column) (pattern : String)
  /-- A part of the text, in either case of letters. -/
  | contains (column : Column) (text : String) (negated : Bool)
  /-- None of the values is null. -/
  | oneOf (column : Column) (values : List Literal) (negated : Bool)
  | datetime (column : Column) (op : Comparison) (text : String)
  | timediff (column : Column) (op : Comparison) (time : RelativeTime)
  | and (parts : List Predicate)
  | or (parts : List Predicate)
  /-- Met by no row. -/
  | never

namespace Predicate

/-- The parts of a conjunction; any other predicate is the one part of itself. -/
def conjuncts : Predicate → List Predicate
  | .and parts => parts
  | p => [p]

/-- All of the parts at once, as one conjunction; no parts leave nothing to meet. -/
def all? (parts : List Predicate) : Option Predicate :=
  match parts.flatMap conjuncts with
  | [] => none
  | [p] => some p
  | flat => some (.and flat)

/-- The column that a test is about. -/
def column? : Predicate → Option Column
  | .isNull c | .isNotNull c | .compare c _ _ | .regex c _ | .contains c _ _ | .oneOf c _ _
  | .datetime c _ _ | .timediff c _ _ => some c
  | .and _ | .or _ | .never => none

mutual

/-- The tests of a predicate, without what joins them. -/
def tests : Predicate → List Predicate
  | .and parts | .or parts => testsOfAll parts
  | p => [p]

def testsOfAll : List Predicate → List Predicate
  | [] => []
  | p :: rest => p.tests ++ testsOfAll rest

end

/-- Some test is about one of the columns. -/
def mentions (p : Predicate) (roots : List String) : Bool :=
  p.tests.any fun t => t.column?.any fun c => roots.contains c.root

end Predicate
end CostQuery

/-! Filter operators and the comparisons behind them. -/

namespace CostQuery

inductive Comparison where
  | eq
  | notEq
  | lt
  | lte
  | gt
  | gte
deriving DecidableEq

def Comparison.name : Comparison → String
  | .eq => "eq"
  | .notEq => "noteq"
  | .lt => "lt"
  | .lte => "lte"
  | .gt => "gt"
  | .gte => "gte"

inductive Operator where
  | eq
  | not
  | lt
  | lte
  | gt
  | gte
  | regex
  | exists
  | contain
  | notContain
  | in
  | notIn
  | containIn
  | notContainIn
  | regexIn
  | datetimeGt
  | datetimeGte
  | datetimeLt
  | datetimeLte
  | timediffGt
  | timediffGte
  | timediffLt
  | timediffLte
deriving DecidableEq

namespace Operator

def all : List Operator :=
  [.eq, .not, .lt, .lte, .gt, .gte, .regex, .exists, .contain, .notContain, .in, .notIn,
    .containIn, .notContainIn, .regexIn, .datetimeGt, .datetimeGte, .datetimeLt, .datetimeLte,
    .timediffGt, .timediffGte, .timediffLt, .timediffLte]

def name : Operator → String
  | .eq => "eq"
  | .not => "not"
  | .lt => "lt"
  | .lte => "lte"
  | .gt => "gt"
  | .gte => "gte"
  | .regex => "regex"
  | .exists => "exists"
  | .contain => "contain"
  | .notContain => "not_contain"
  | .in => "in"
  | .notIn => "not_in"
  | .containIn => "contain_in"
  | .notContainIn => "not_contain_in"
  | .regexIn => "regex_in"
  | .datetimeGt => "datetime_gt"
  | .datetimeGte => "datetime_gte"
  | .datetimeLt => "datetime_lt"
  | .datetimeLte => "datetime_lte"
  | .timediffGt => "timediff_gt"
  | .timediffGte => "timediff_gte"
  | .timediffLt => "timediff_lt"
  | .timediffLte => "timediff_lte"

def ofName? (name : String) : Option Operator := all.find? (·.name = name)

def takesList : Operator → Bool
  | .in | .notIn | .containIn | .notContainIn | .regexIn => true
  | _ => false

/-- The ordering that an operator asks for. -/
def comparison? : Operator → Option Comparison
  | .lt | .datetimeLt | .timediffLt => some .lt
  | .lte | .datetimeLte | .timediffLte => some .lte
  | .gt | .datetimeGt | .timediffGt => some .gt
  | .gte | .datetimeGte | .timediffGte => some .gte
  | _ => none

end Operator
end CostQuery

import CostQuery.Calendar.Window

/-! Why a request is refused. -/

namespace CostQuery

/-- What is wrong with a parameter. -/
inductive ParameterFault where
  | unknownGranularity (text : String)
  | notDate (text : String)
  | reservedName (key : String)
  | flagExpected
  | scalarItemsExpected
  | scalarListExpected
  | relativeTextExpected
  | relativeFormExpected
  | timestampExpected
  | scalarExpected
  | emptySortKey
  | emptyPath
  | emptyColumnKey
  | pageOutOfRange (start limit : Nat)

/-- Names beginning so are kept for the totals of groups. -/
def totalMark : String := "_total_"

def ParameterFault.message : ParameterFault → String
  | .unknownGranularity text => "unknown granularity '" ++ text ++ "'"
  | .notDate text => "'" ++ text ++ "' is not YYYY, YYYY-MM or YYYY-MM-DD"
  | .reservedName key => "'" ++ key ++ "' uses the reserved prefix '" ++ totalMark ++ "'"
  | .flagExpected => "exists expects a boolean"
  | .scalarItemsExpected => "list items must be scalars"
  | .scalarListExpected => "expected a list of scalars"
  | .relativeTextExpected => "timediff expects a string such as 'now-3d'"
  | .relativeFormExpected => "timediff accepts now, now/d and [+-]N[dhmsw]"
  | .timestampExpected => "datetime expects a timestamp string"
  | .scalarExpected => "expected a scalar value"
  | .emptySortKey => "empty sort key"
  | .emptyPath => "empty path"
  | .emptyColumnKey => "empty column key"
  | .pageOutOfRange start limit =>
    "start " ++ toString start ++ " with limit " ++ toString limit ++ " is out of range"

inductive RequestFault where
  | missing (parameter : String)
  | invalid (parameter : String) (fault : ParameterFault)
  | window (start finish : String) (fault : WindowFault)
  | unsupportedOperator (name : String)

def RequestFault.message : RequestFault → String
  | .missing parameter => "Required parameter: " ++ parameter
  | .invalid parameter fault => "Invalid parameter '" ++ parameter ++ "': " ++ fault.message
  | .window start finish fault =>
    "Invalid date range " ++ start ++ " ~ " ++ finish ++ ": " ++ fault.message
  | .unsupportedOperator name => "Unsupported operator: " ++ name

end CostQuery

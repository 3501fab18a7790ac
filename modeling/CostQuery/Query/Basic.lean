import CostQuery.Calendar.Window
import CostQuery.Filter.Condition
import CostQuery.Query.Aggregate
import CostQuery.Query.Page
import CostQuery.Query.Select

/-! Queries: requests that passed every check. -/

namespace CostQuery

/-- A column and the name of its output. -/
structure ColumnRef where
  key : String
  name : String

structure FieldSpec where
  name : String
  aggregate : Aggregate
  /-- Absent for counts. -/
  key : Option String
  /-- Slot names and the columns they read. -/
  slots : List (String × String)

structure SortKey where
  key : String
  desc : Bool

structure AnalyzeQuery where
  granularity : Granularity
  window : Window
  filter : List Condition
  filterOr : List Condition
  groupBy : List ColumnRef
  fields : List FieldSpec
  fieldGroup : List ColumnRef
  select : List (String × SelectExpr)
  sort : List SortKey
  page : Option Page
  unwind : Option String

structure SearchQuery where
  filter : List Condition
  filterOr : List Condition
  sort : List SortKey
  page : Option Page
  distinct : Option String
  select : List (String × SelectExpr)
  unwind : Option String
  minimal : Bool
  only : List String
  countOnly : Bool

end CostQuery

import CostQuery.Decimal.Binary
import CostQuery.Plan.Basic
import CostQuery.Query.Page
import CostQuery.Record.Basic
import CostQuery.Sql.Expr

/-! Results: the records of a query under the names that were asked for. -/

namespace CostQuery

structure AnalyzeResult where
  results : List Record
  /-- There are rows beyond the page. -/
  more : Bool

structure SearchResult where
  results : List Record
  /-- The number of rows on all pages. -/
  totalCount : Nat

inductive SearchOutcome where
  | count (totalCount : Nat)
  | distinct (values : List Json)
  | rows (result : SearchResult)

/-- The name of an output, by its identifier; any other member keeps its own. -/
def displayName (outputs : List OutputColumn) (ident : String) : String :=
  match outputs.find? (·.ident = ident) with
  | some output => output.name
  | none => ident

def renamed (outputs : List OutputColumn) (members : Members Json) : Members Json :=
  Members.collect (members.map fun (k, v) => (displayName outputs k, v))

/-- The members of the objects in a list. -/
def renamedItems (outputs : List OutputColumn) : Json → Json
  | .arr items => .arr (items.map fun
      | .obj members => .obj (renamed outputs members)
      | item => item)
  | v => v

namespace AnalyzePlan

def arrays (p : AnalyzePlan) : List String :=
  match p.facet? with
  | some f => f.arrays
  | none => []

/-- The key of the group is no column of its own. -/
def record (p : AnalyzePlan) (row : Record) : Record :=
  renamed p.outputs ((row.filter fun (k, _) => k ≠ "_id").map fun (k, v) =>
    (k, if p.arrays.contains k then renamedItems p.outputs v else v))

/-- The row beyond the page only tells that there is one. -/
def result (p : AnalyzePlan) (rows : List Record) : AnalyzeResult :=
  match p.pageLimit with
  | some limit => ⟨(rows.take limit).map p.record, decide (limit < rows.length)⟩
  | none => ⟨rows.map p.record, false⟩

end AnalyzePlan

/-- A count as a value: the whole part of a number that is not negative. -/
def Json.toCount? : Json → Option Nat
  | .num (.int n) => if 0 ≤ n then some n.toNat else none
  | .num (.float x) =>
    if 0 ≤ x then some (min (Decimal.Binary.ofFloat x).floor maxCount) else none
  | _ => none

/-- The named count, as the first record gives it. -/
def firstCount (name : String) : List Record → Nat
  | [] => 0
  | row :: _ => ((row.get? name).bind Json.toCount?).getD 0

namespace SearchPlan

/-- The count and the spread item are no columns of their own. -/
def record (p : SearchPlan) (row : Record) : Record :=
  renamed p.outputs (row.filter fun (k, _) =>
    k ≠ Sql.windowCountName.text && k ≠ Sql.unwoundName.text)

def result (p : SearchPlan) (rows : List Record) : SearchResult :=
  ⟨rows.map p.record, firstCount Sql.windowCountName.text rows⟩

end SearchPlan

/-- The number of rows, of a search for nothing else. -/
def rowCount (rows : List Record) : Nat := firstCount Sql.totalCountName.text rows

/-- The one member of a record, or the member of distinct values. -/
def distinctValue? : Record → Option Json
  | [(_, v)] => some v
  | row => row.get? Sql.valuesName.text

def distinctValues (rows : List Record) : List Json := rows.filterMap distinctValue?

def SearchPlan.outcome (p : SearchPlan) (rows : List Record) : SearchOutcome :=
  match p.mode with
  | .count => .count (rowCount rows)
  | .distinct _ => .distinct (distinctValues rows)
  | .rows _ => .rows (p.result rows)

def recordsToJson (rows : List Record) : Json := .arr (rows.map .obj)

def AnalyzeResult.toJson (r : AnalyzeResult) : Json :=
  .obj [("results", recordsToJson r.results), ("more", .bool r.more)]

def SearchOutcome.toJson : SearchOutcome → Json
  | .count n => .obj [("total_count", .int n)]
  | .distinct values => .arr values
  | .rows r => .obj [("results", recordsToJson r.results), ("total_count", .int r.totalCount)]

/-- A page of records that are all at hand. -/
def pageSlice (rows : List Record) : Option Page → AnalyzeResult
  | none => ⟨rows, false⟩
  | some page =>
    ⟨(rows.drop page.offset).take page.limit,
      decide (addCounts page.offset page.limit < rows.length)⟩

end CostQuery

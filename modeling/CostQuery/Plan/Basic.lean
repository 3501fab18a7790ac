import CostQuery.Calendar.Granularity
import CostQuery.Filter.Predicate
import CostQuery.Plan.Alias
import CostQuery.Plan.Computed
import CostQuery.Query.Aggregate

/-! Plans: what is done to the rows, step by step, whichever store holds them. -/

namespace CostQuery

inductive KeySource where
  | column (column : Column)
  /-- The billed date, cut. -/
  | bucket (precision : Precision)
  | computed (expr : Computed)

structure GroupKey where
  ident : String
  source : KeySource

inductive AggregateInput where
  | column (column : Column)
  /-- The rows themselves. -/
  | rows
  /-- Slots and the columns that fill them. -/
  | slots (slots : List (String × Column))

structure AggregateField where
  ident : String
  aggregate : Aggregate
  input : AggregateInput
  /-- Serves another column and is never shown. -/
  hidden : Bool

/-- The first grouping, over rows. -/
structure Group where
  keys : List GroupKey
  fields : List AggregateField

/-- A total over the groups of one partition. -/
inductive Total where
  | sum (ident : String)
  | min (ident : String)
  | max (ident : String)
  /-- A sum of sums over a sum of counts; zero where nothing was counted. -/
  | ratio (sum count : String)

structure FacetTotal where
  ident : String
  total : Total

/-- The second grouping: one row a partition, with its totals, and each array column as a list
that tells its groups apart by the facet keys. -/
structure Facet where
  partitionKeys : List String
  facetKeys : List String
  totals : List FacetTotal
  arrays : List String

structure OrderKey where
  ident : String
  desc : Bool

/-- The name under which the items of an array column hold the value. -/
def facetValue : String := "value"

inductive Stage where
  | unwind (path : Column)
  | «match» (predicate : Predicate)
  | group (group : Group)
  | facet (facet : Facet)
  | sort (order : List OrderKey)
  | skip (count : Nat)
  /-- The rows to fetch, with the one beyond the page. -/
  | limit (count : Nat)
  /-- The columns shown, in order. -/
  | project (idents : List String)

structure AnalyzePlan where
  granularity : Granularity
  stages : List Stage
  /-- The names of the columns shown and of the facet keys. -/
  outputs : List OutputColumn
  pageLimit : Option Nat
  collisions : List Collision

namespace Stage

def unwind? : Stage → Option Column
  | .unwind path => some path
  | _ => none

def match? : Stage → Option Predicate
  | .match p => some p
  | _ => none

def group? : Stage → Option Group
  | .group g => some g
  | _ => none

def facet? : Stage → Option Facet
  | .facet f => some f
  | _ => none

def sort? : Stage → Option (List OrderKey)
  | .sort order => some order
  | _ => none

def skip? : Stage → Option Nat
  | .skip n => some n
  | _ => none

def limit? : Stage → Option Nat
  | .limit n => some n
  | _ => none

def project? : Stage → Option (List String)
  | .project idents => some idents
  | _ => none

end Stage

namespace AnalyzePlan

def group? (p : AnalyzePlan) : Option Group := p.stages.findSome? Stage.group?

def facet? (p : AnalyzePlan) : Option Facet := p.stages.findSome? Stage.facet?

def fetchLimit? (p : AnalyzePlan) : Option Nat := p.stages.findSome? Stage.limit?

end AnalyzePlan

/-- The columns of a list of rows. -/
inductive Projection where
  | all
  | columns (columns : List Column)

/-- A page of rows. -/
structure Listing where
  projection : Projection
  computed : List (String × Computed)
  sort : List (Column × Bool)
  skip : Nat
  limit : Option Nat

inductive SearchMode where
  /-- The number of rows. -/
  | count
  | distinct (column : Column)
  | rows (listing : Listing)

structure SearchPlan where
  unwind : Option Column
  predicate : Option Predicate
  /-- The filters bound the billed period already. -/
  hasDateFilter : Bool
  mode : SearchMode
  outputs : List OutputColumn
  collisions : List Collision

end CostQuery

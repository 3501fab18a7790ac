import CostQuery.Filter.Lowering
import CostQuery.Plan.Basic
import CostQuery.Query.Basic
import CostQuery.Settings

/-! Plans of searches. -/

namespace CostQuery

/-- Columns that hold billed dates in any form. -/
def Warehouse.dateRoots (w : Warehouse) : List String :=
  [w.billedAtColumn, w.partitionColumn] ++ Precision.all.reverse.map Precision.column

namespace Registry

/-- Keep the items whose names are new, and register them. -/
def keepNew {α : Type} (name : α → String) : Registry → List α → List α × Registry
  | r, [] => ([], r)
  | r, a :: rest =>
    let (registration, r) := r.register (name a)
    let (kept, r) := keepNew name r rest
    match registration with
    | .new _ => (a :: kept, r)
    | _ => (kept, r)

end Registry

namespace SearchQuery

/-- Columns asked for by key come before the minimal ones; without either all are shown. -/
def projectedKeys? (q : SearchQuery) (w : Warehouse) : Option (List String) :=
  if !q.only.isEmpty then some q.only
  else if q.minimal then some w.minimalFields
  else none

/-- Projected columns take their names before computed ones. -/
def listing (q : SearchQuery) (w : Warehouse) : Listing × Registry :=
  let (projection, registry) := match q.projectedKeys? w with
    | none => (Projection.all, ({} : Registry))
    | some keys =>
      let (columns, registry) := Registry.keepNew Column.key {} (keys.map Column.ofKey)
      (.columns columns, registry)
  let (computed, registry) := registry.keepNew Prod.fst q.select
  ({ projection
     computed := computed.map fun (name, e) => (name, Computed.ofSelect e)
     sort := q.sort.map fun s => (Column.ofKey s.key, s.desc)
     skip := (q.page.map Page.offset).getD 0
     limit := q.page.map Page.limit }, registry)

/-- Counting comes before distinct values, and those before rows. -/
def mode (q : SearchQuery) (w : Warehouse) : SearchMode × Registry :=
  if q.countOnly then (.count, {})
  else match q.distinct with
    | some key => (.distinct (Column.ofKey key), {})
    | none =>
      let (listing, registry) := q.listing w
      (.rows listing, registry)

end SearchQuery

namespace SearchPlan

def ofQuery (w : Warehouse) (q : SearchQuery) : SearchPlan :=
  let predicate := Predicate.ofFilters? q.filter q.filterOr
  let (mode, registry) := q.mode w
  { unwind := q.unwind.map Column.ofKey
    predicate
    hasDateFilter := predicate.any fun p => p.mentions w.dateRoots
    mode
    outputs := registry.entries
    collisions := registry.collisions }

end SearchPlan
end CostQuery

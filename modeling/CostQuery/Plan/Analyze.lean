import CostQuery.Filter.Lowering
import CostQuery.Plan.Draft

/-! Plans of analyses. -/

namespace CostQuery

inductive PlanFault where
  | nothingToShow
  | noFacetKey

def PlanFault.message : PlanFault → String
  | .nothingToShow => "Query must have at least one group key or field"
  | .noFacetKey => "Invalid query: field_group does not resolve to any group key"

namespace AnalyzeQuery

def isFaceted (q : AnalyzeQuery) : Bool := !q.fieldGroup.isEmpty

/-- The billed date is within the window, to the precision of the granularity. -/
def windowTests (q : AnalyzeQuery) : List Predicate :=
  let precision := q.granularity.windowPrecision
  let column := Column.ofKey precision.column
  [.compare column .gte (.text (q.window.start.cut precision)),
    .compare column .lte (.text (q.window.finish.cut precision))]

def predicate? (q : AnalyzeQuery) : Option Predicate :=
  Predicate.all? (q.windowTests ++ (Predicate.ofFilters? q.filter q.filterOr).toList)

/-- Keys: the date, the group columns, the facet columns. -/
def draftKeys (q : AnalyzeQuery) : Draft :=
  let d := ({} : Draft).addDate q.granularity
  let d := q.groupBy.foldl (fun d c => (d.addColumn c).2) d
  q.fieldGroup.foldl (Draft.addFacet q.groupBy) d

/-- After them the computed columns, the fields, and the totals of the fields. -/
def draftFields (q : AnalyzeQuery) (d : Draft) : Draft :=
  let d := q.select.foldl (fun d (name, e) => d.addSelect name e) d
  let d := q.fields.foldl (Draft.addField q.isFaceted) d
  if q.isFaceted then d.planned.foldl Draft.addTotal d else d

def pageStages (q : AnalyzeQuery) : List Stage :=
  match q.page with
  | some page => [.skip page.offset, .limit (addCounts page.limit 1)]
  | none => []

def stages (q : AnalyzeQuery) (d : Draft) : List Stage :=
  let visible := d.visible q.isFaceted
  let order := d.order visible q.sort
  (q.unwind.map fun path => Stage.unwind (Column.ofKey path)).toList ++
    (q.predicate?.map .match).toList ++
    [.group ⟨d.keys, d.fields⟩] ++
    (if q.isFaceted then [.facet d.facet] else []) ++
    (if order.isEmpty then [] else [.sort order]) ++
    q.pageStages ++
    [.project visible]

end AnalyzeQuery

namespace AnalyzePlan

def ofQuery (q : AnalyzeQuery) : Except PlanFault AnalyzePlan :=
  let d := q.draftKeys
  if q.isFaceted && d.facetKeys.isEmpty then .error .noFacetKey
  else
    let d := q.draftFields d
    if d.keys.isEmpty && d.fields.isEmpty then .error .nothingToShow
    else .ok {
      granularity := q.granularity
      stages := q.stages d
      outputs := d.outputs (d.visible q.isFaceted)
      pageLimit := q.page.map (·.limit)
      collisions := d.registry.collisions }

end AnalyzePlan
end CostQuery

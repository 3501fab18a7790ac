import CostQuery.Plan.Basic
import CostQuery.Sql.Computed
import CostQuery.Sql.Filter

/-! Analysis plans as SQL: a grouping query, the totals of facets beside its rows, and the rows
or facets that are shown. -/

namespace CostQuery.Sql

def named (e : Expr) (ident : String) : Compiled Item := do
  return ⟨e, some (← Name.ofText ident)⟩

def bare (e : Expr) : Item := ⟨e, none⟩

def aggregateFunction : Aggregate → Function
  | .sum => .sum
  | .average => .avg
  | .max => .max
  | .min => .min
  | .count => .count
  | .push => .arrayAgg
  | .addToSet => .collectSet

namespace Reader

def keyExpr (r : Reader) (k : GroupKey) : Compiled Expr :=
  match k.source with
  | .column c => r.column c
  | .bucket p => r.dateBucket p
  | .computed e => r.computed e

def slot (r : Reader) (s : String × Column) : Compiled (String × Expr) := do
  return (s.1, ← r.column s.2)

/-- Only a count can do without an input column. -/
def aggregateExpr (r : Reader) (f : AggregateField) : Compiled Expr :=
  match f.input, f.aggregate with
  | .rows, .count => .ok (.call .count [.star])
  | .rows, _ => .error (.missingInput f.ident)
  | .column c, aggregate => do return .call (aggregateFunction aggregate) [← r.column c]
  | .slots slots, aggregate => do
    return .call (aggregateFunction aggregate) [.struct (← slots.mapM r.slot)]

def keyItem (r : Reader) (k : GroupKey) : Compiled Item := do named (← r.keyExpr k) k.ident

def fieldItem (r : Reader) (f : AggregateField) : Compiled Item := do
  named (← r.aggregateExpr f) f.ident

/-- Keys alone are told apart by distinct rows. -/
def baseQuery (r : Reader) (p : AnalyzePlan) (g : Group) : Compiled Select := do
  let table ← tableName r.warehouse.table
  let explode ← r.explode
  let filter ← (p.stages.findSome? Stage.match?).mapM r.filter
  let keys ← g.keys.mapM r.keyItem
  let fields ← g.fields.mapM r.fieldItem
  return {
    distinct := g.fields.isEmpty
    items := keys ++ fields
    source := .table table
    explode
    filter
    grouping := if g.fields.isEmpty then .none else .all }

end Reader

/-- An aggregate of a column over each partition. -/
def windowed (f : Function) (partition : List Name) (ident : String) : Compiled Expr := do
  return .over (.call f [← Expr.ofName ident]) partition

def totalExpr (partition : List Name) : Total → Compiled Expr
  | .sum ident => windowed .sum partition ident
  | .min ident => windowed .min partition ident
  | .max ident => windowed .max partition ident
  | .ratio sum count => do
    let count ← windowed .sum partition count
    let sum ← windowed .sum partition sum
    return .ifThenElse (.compare .eq count (.int 0)) (.int 0) (.arithmetic .divide sum count)

/-- Every grouped row, with the totals of its partition. -/
def facetQuery (f : Facet) : Compiled Select := do
  let partition ← f.partitionKeys.mapM Name.ofText
  let totals ← f.totals.mapM fun t => do named (← totalExpr partition t.total) t.ident
  return { items := bare .star :: totals, source := .subquery baseName }

/-- The total is the same in all rows of a partition. -/
def totalItem (t : FacetTotal) : Compiled Item := do
  named (.call .max [← Expr.ofName t.ident]) t.ident

def columnSlot (name ident : String) : Compiled (String × Expr) := do
  return (name, ← Expr.ofName ident)

/-- The values of one column, each with the facet keys of its row. -/
def arrayItem (facetKeys : List String) (ident : String) : Compiled Item := do
  let keys ← facetKeys.mapM fun k => columnSlot k k
  let value ← columnSlot facetValue ident
  named (.call .arrayAgg [.struct (keys ++ [value])]) ident

def facetBody (f : Facet) : Compiled Select := do
  let partition ← f.partitionKeys.mapM Name.ofText
  let totals ← f.totals.mapM totalItem
  let arrays ← f.arrays.mapM (arrayItem f.facetKeys)
  return {
    items := partition.map (fun n => bare (.column n)) ++ totals ++ arrays
    source := .subquery facetName
    grouping := .keys partition }

def plainBody (p : AnalyzePlan) : Compiled Select := do
  match p.stages.findSome? Stage.project? with
  | none => .error .noProjection
  | some idents =>
    let names ← idents.mapM Name.ofText
    return { items := names.map fun n => bare (.column n), source := .subquery baseName }

def orderItem (k : OrderKey) : Compiled OrderItem := do
  return ⟨← Expr.ofName k.ident, k.desc⟩

def orderOf (p : AnalyzePlan) : Compiled (List OrderItem) :=
  ((p.stages.findSome? Stage.sort?).getD []).mapM orderItem

/-- Order and page apply to the rows shown. -/
def paged (p : AnalyzePlan) (body : Select) : Compiled Select := do
  return { body with
    order := ← orderOf p
    limit := p.stages.findSome? Stage.limit?
    offset := p.stages.findSome? Stage.skip? }

def Reader.analysis (r : Reader) (p : AnalyzePlan) : Compiled Statement := do
  match p.group? with
  | none => .error .noGroup
  | some g =>
    let base ← r.baseQuery p g
    match p.facet? with
    | some f =>
      let facets ← facetQuery f
      let body ← facetBody f
      return {
        subqueries := [(baseName, base), (facetName, facets)]
        body := ← paged p body }
    | none =>
      let body ← plainBody p
      return { subqueries := [(baseName, base)], body := ← paged p body }

def Statement.ofAnalyzePlan (w : Warehouse) (p : AnalyzePlan) : Compiled Statement :=
  Reader.analysis ⟨w, p.stages.findSome? Stage.unwind?⟩ p

end CostQuery.Sql

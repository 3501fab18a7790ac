import CostQuery.Pipeline.Filter
import CostQuery.Plan.Basic
import CostQuery.Plan.Fault
import CostQuery.Settings

/-! Analysis plans as pipelines. -/

namespace CostQuery.Pipeline

/-- A number missing from a map of numbers counts as zero. -/
def value (w : Warehouse) (c : Column) : Expr :=
  if c.sub.isSome && w.isNumericRoot c.root then .ifNull (.path c.key) (.int 0) else .path c.key

/-- Division by zero gives null. -/
def applied (op : Arithmetic) (left right : Expr) : Expr :=
  match op with
  | .divide => .cond (.compare .eq right (.int 0)) .null (.arithmetic .divide left right)
  | op => .arithmetic op left right

/-- Operands from the left. -/
def chained (op : Arithmetic) : List Expr → Compiled Expr
  | [] => .error .noOperands
  | first :: rest => .ok (rest.foldl (applied op) first)

mutual

def computed (w : Warehouse) : Computed → Compiled Expr
  | .column c => .ok (value w c)
  | .literal l => .ok (.literal l)
  | .size c => .ok (.size (.ifNull (.path c.key) .emptyList))
  | .arithmetic op operands => do chained op (← computedAll w operands)

def computedAll (w : Warehouse) : List Computed → Compiled (List Expr)
  | [] => .ok []
  | e :: rest => do return (← computed w e) :: (← computedAll w rest)

end

def keyExpr (w : Warehouse) (k : GroupKey) : Compiled Expr :=
  match k.source with
  | .column c => .ok (value w c)
  | .bucket p => .ok (.path p.column)
  | .computed e => computed w e

/-- One for a value, zero for null. -/
def known (input : Expr) : Expr :=
  .cond (.compare .eq (.ifNull input .null) .null) (.int 0) (.int 1)

def accumulated (aggregate : Aggregate) (input : Expr) : Accumulator :=
  match aggregate with
  | .sum => .sum input
  | .average => .avg input
  | .max => .max input
  | .min => .min input
  | .count => .sum (known input)
  | .push => .push input
  | .addToSet => .addToSet input

def accumulator (w : Warehouse) (f : AggregateField) : Compiled Accumulator :=
  match f.input, f.aggregate with
  | .rows, .count => .ok (.sum (.int 1))
  | .rows, _ => .error (.missingInput f.ident)
  | .column c, aggregate => .ok (accumulated aggregate (value w c))
  | .slots slots, aggregate =>
    .ok (accumulated aggregate (.object (slots.map fun (name, c) => (name, value w c))))

/-- The members of the group key as columns of their own. -/
def lifted (keys : List String) : List (String × Shown) :=
  ("_id", .drop) :: keys.map fun k => (k, .expr (.path ("_id." ++ k)))

def groupStages (w : Warehouse) (g : Group) : Compiled (List Stage) := do
  let key ← g.keys.mapM fun k => return (k.ident, ← keyExpr w k)
  let accumulators ← g.fields.mapM fun f => return (f.ident, ← accumulator w f)
  return [.group key accumulators,
    .project (lifted (g.keys.map (·.ident)) ++ g.fields.map fun f => (f.ident, .keep))]

def numerator (ident : String) : String := "__num_" ++ ident

def denominator (ident : String) : String := "__den_" ++ ident

def totalAccumulators (t : FacetTotal) : List (String × Accumulator) :=
  match t.total with
  | .sum ident => [(t.ident, .sum (.path ident))]
  | .min ident => [(t.ident, .min (.path ident))]
  | .max ident => [(t.ident, .max (.path ident))]
  | .ratio sum count =>
    [(numerator t.ident, .sum (.path sum)), (denominator t.ident, .sum (.path count))]

def totalShown (t : FacetTotal) : String × Shown :=
  match t.total with
  | .sum _ | .min _ | .max _ => (t.ident, .keep)
  | .ratio _ _ =>
    (t.ident, .expr (.cond (.compare .eq (.path (denominator t.ident)) (.int 0)) (.int 0)
      (.arithmetic .divide (.path (numerator t.ident)) (.path (denominator t.ident)))))

/-- The facet keys of a group, with its value. -/
def facetItem (facetKeys : List String) (ident : String) : Expr :=
  .object (facetKeys.map (fun k => (k, .path k)) ++ [(facetValue, .path ident)])

def facetStages (f : Facet) : List Stage :=
  [.group (f.partitionKeys.map fun k => (k, .path k))
      (f.totals.flatMap totalAccumulators ++
        f.arrays.map fun ident => (ident, .push (facetItem f.facetKeys ident))),
    .project (lifted f.partitionKeys ++ f.totals.map totalShown ++
      f.arrays.map fun ident => (ident, .keep))]

def stages (w : Warehouse) : CostQuery.Stage → Compiled (List Stage)
  | .unwind path => .ok [.unwind path.key]
  | .match p => .ok [.match (.ofPredicate p)]
  | .group g => groupStages w g
  | .facet f => .ok (facetStages f)
  | .sort order => .ok [.sort (order.map fun k => (k.ident, k.desc))]
  | .skip n => .ok [.skip n]
  | .limit n => .ok [.limit n]
  | .project idents => .ok [.project (("_id", .drop) :: idents.map fun ident => (ident, .keep))]

def ofPlan (w : Warehouse) (p : AnalyzePlan) : Compiled (List Stage) := do
  return (← p.stages.mapM (stages w)).flatten

end CostQuery.Pipeline

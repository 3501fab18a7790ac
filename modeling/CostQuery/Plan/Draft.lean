import CostQuery.Plan.Basic
import CostQuery.Query.Basic
import CostQuery.Query.Fault

/-! Analysis plans in the making. All outputs share one registry of names, in which the first
comer wins. -/

namespace CostQuery

/-- An aggregate that is shown. -/
structure PlannedField where
  name : String
  ident : String
  aggregate : Aggregate
  /-- The hidden sum and count of an average. -/
  parts : Option (String × String)

namespace PlannedField

/-- Counts of groups add up; averages do not, but their sums and counts do. -/
def total? (f : PlannedField) : Option Total :=
  match f.aggregate with
  | .sum | .count => some (.sum f.ident)
  | .min => some (.min f.ident)
  | .max => some (.max f.ident)
  | .average => f.parts.map fun (sum, count) => .ratio sum count
  | .push | .addToSet => none

end PlannedField

namespace FieldSpec

def input (f : FieldSpec) : AggregateInput :=
  match f.aggregate, f.key with
  | .count, _ => .rows
  | _, none => .rows
  | .push, some _ =>
    .slots (f.slots.map fun (name, key) => (Alias.ofName name, Column.ofKey key))
  | _, some key => .column (Column.ofKey key)

end FieldSpec

/-- A plan in the making. -/
structure Draft where
  registry : Registry := {}
  keys : List GroupKey := []
  facetKeys : List String := []
  fields : List AggregateField := []
  planned : List PlannedField := []
  totals : List FacetTotal := []
  /-- Each field that has a total, and the total. -/
  totalOf : List (String × String) := []

namespace Draft

def register (d : Draft) (name : String) : Registration × Draft :=
  let (registration, registry) := d.registry.register name
  (registration, { d with registry })

/-- A key whose name is taken is left out. -/
def addKey (d : Draft) (name : String) (source : KeySource) : Registration × Draft :=
  match d.register name with
  | (.new ident, d) => (.new ident, { d with keys := d.keys ++ [⟨ident, source⟩] })
  | (registration, d) => (registration, d)

def addDate (d : Draft) (granularity : Granularity) : Draft :=
  match granularity.bucket? with
  | some precision => (d.addKey "date" (.bucket precision)).2
  | none => d

def addColumn (d : Draft) (c : ColumnRef) : Registration × Draft :=
  d.addKey c.name (.column (Column.ofKey c.key))

/-- The group key of a facet column, added if no group column has its key. -/
def facetKey (groupBy : List ColumnRef) (d : Draft) (c : ColumnRef) : Option String × Draft :=
  match groupBy.find? (·.key = c.key) with
  | some grouped => (d.registry.identOf? grouped.name, d)
  | none =>
    match d.addColumn c with
    | (.new ident, d) | (.existing ident, d) => (some ident, d)
    | (.collision _, d) => (none, d)

def addFacet (groupBy : List ColumnRef) (d : Draft) (c : ColumnRef) : Draft :=
  match facetKey groupBy d c with
  | (some ident, d) =>
    if d.facetKeys.contains ident then d else { d with facetKeys := d.facetKeys ++ [ident] }
  | (none, d) => d

def addSelect (d : Draft) (name : String) (e : SelectExpr) : Draft :=
  (d.addKey name (.computed (Computed.ofSelect e))).2

def addInput (d : Draft) (f : AggregateField) : Draft := { d with fields := d.fields ++ [f] }

/-- The hidden sum and count of an average, if both names are free. -/
def addParts (d : Draft) (name : String) (column : Column) : Option (String × String) × Draft :=
  match d.register ("__sum_" ++ name) with
  | (.new sum, d) =>
    match d.register ("__count_" ++ name) with
    | (.new count, d) =>
      (some (sum, count),
        (d.addInput ⟨sum, .sum, .column column, true⟩).addInput
          ⟨count, .count, .column column, true⟩)
    | (_, d) => (none, d)
  | (_, d) => (none, d)

/-- A field whose name is taken is left out. Totals need the parts of an average. -/
def addField (faceted : Bool) (d : Draft) (f : FieldSpec) : Draft :=
  match d.register f.name with
  | (.new ident, d) =>
    let d := d.addInput ⟨ident, f.aggregate, f.input, false⟩
    match faceted, f.aggregate, f.key with
    | true, .average, some key =>
      let (parts, d) := d.addParts f.name (Column.ofKey key)
      { d with planned := d.planned ++ [⟨f.name, ident, f.aggregate, parts⟩] }
    | _, _, _ => { d with planned := d.planned ++ [⟨f.name, ident, f.aggregate, none⟩] }
  | (_, d) => d

def addTotal (d : Draft) (f : PlannedField) : Draft :=
  match f.total? with
  | none => d
  | some total =>
    match d.register (totalMark ++ f.name) with
    | (.new ident, d) =>
      { d with totals := d.totals ++ [⟨ident, total⟩], totalOf := d.totalOf ++ [(f.ident, ident)] }
    | (_, d) => d

def keyIdents (d : Draft) : List String := d.keys.map (·.ident)

def plannedIdents (d : Draft) : List String := d.planned.map (·.ident)

/-- Group keys that are no facet keys. -/
def partitionKeys (d : Draft) : List String :=
  d.keyIdents.filter fun ident => !d.facetKeys.contains ident

def facet (d : Draft) : Facet :=
  ⟨d.partitionKeys, d.facetKeys, d.totals, d.plannedIdents⟩

/-- The columns shown. -/
def visible (d : Draft) (faceted : Bool) : List String :=
  if faceted then d.partitionKeys ++ d.totals.map (·.ident) ++ d.plannedIdents
  else d.keyIdents ++ d.plannedIdents

/-- The total of the field that goes by the key. -/
def totalFor? (d : Draft) (key : String) : Option String := do
  let field ← d.planned.find? fun f => f.name = key || f.ident = key
  let (_, total) ← d.totalOf.find? fun t => t.1 = field.ident
  return total

/-- A sort key is a name or an identifier of a column shown; a field with a total sorts by it. -/
def sortIdent? (d : Draft) (visible : List String) (key : String) : Option String :=
  match d.totalFor? key with
  | some total => some total
  | none =>
    let ident := match d.registry.identOf? key with
      | some ident => some ident
      | none => if d.registry.containsIdent key then some key else none
    ident.filter visible.contains

def order (d : Draft) (visible : List String) (sort : List SortKey) : List OrderKey :=
  sort.filterMap fun s => (d.sortIdent? visible s.key).map fun ident => ⟨ident, s.desc⟩

def outputs (d : Draft) (visible : List String) : List OutputColumn :=
  d.registry.entries.filter fun e => visible.contains e.ident || d.facetKeys.contains e.ident

end Draft

end CostQuery

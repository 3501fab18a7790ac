import CostQuery.Query.Basic

/-! The exchange form of queries. -/

namespace CostQuery

def RelativeTime.toJson (t : RelativeTime) : Json :=
  .obj [("day_start", .bool t.dayStart),
    ("offset", .ofOption (fun o => .arr [.int o.1, .str o.2.name]) t.offset)]

def Operand.toJson : Operand → Json
  | .scalar l => l.toJson
  | .list ls => .arr (ls.map Literal.toJson)
  | .flag b => .bool b
  | .relative t => t.toJson

def Condition.toJson (c : Condition) : Json :=
  .obj [("key", .str c.key), ("operator", .str c.operator.name), ("value", c.operand.toJson)]

def ColumnRef.toJson (c : ColumnRef) : Json := .obj [("key", .str c.key), ("name", .str c.name)]

def FieldSpec.toJson (f : FieldSpec) : Json :=
  .obj [("name", .str f.name), ("operator", .str f.aggregate.name), ("key", .ofOption .str f.key),
    ("fields", .arr (f.slots.map fun (name, key) => .arr [.str name, .str key]))]

def SortKey.toJson (s : SortKey) : Json := .obj [("key", .str s.key), ("desc", .bool s.desc)]

def Page.toJson (p : Page) : Json := .obj [("start", .int p.start), ("limit", .int p.limit)]

def Window.toJson (w : Window) : Json :=
  .obj [("start", .str w.start.text), ("end", .str w.finish.text)]

mutual

def SelectExpr.toJson : SelectExpr → Json
  | .field key => .obj [("Field", .str key)]
  | .literal value => .obj [("Literal", value.toJson)]
  | .arithmetic op operands =>
    .obj [("Arithmetic", .obj [("op", .str op.name), ("operands", .arr (operandsToJson operands))])]
  | .size key => .obj [("Size", .str key)]

def operandsToJson : List SelectExpr → List Json
  | [] => []
  | e :: rest => e.toJson :: operandsToJson rest

end

def selectToJson (select : List (String × SelectExpr)) : Json :=
  .arr (select.map fun (name, e) => .arr [.str name, e.toJson])

def AnalyzeQuery.toJson (q : AnalyzeQuery) : Json :=
  .obj [("granularity", .str q.granularity.name),
    ("range", q.window.toJson),
    ("filter", .arr (q.filter.map Condition.toJson)),
    ("filter_or", .arr (q.filterOr.map Condition.toJson)),
    ("group_by", .arr (q.groupBy.map ColumnRef.toJson)),
    ("fields", .arr (q.fields.map FieldSpec.toJson)),
    ("field_group", .arr (q.fieldGroup.map ColumnRef.toJson)),
    ("select", selectToJson q.select),
    ("sort", .arr (q.sort.map SortKey.toJson)),
    ("page", .ofOption Page.toJson q.page),
    ("unwind", .ofOption .str q.unwind)]

def SearchQuery.toJson (q : SearchQuery) : Json :=
  .obj [("filter", .arr (q.filter.map Condition.toJson)),
    ("filter_or", .arr (q.filterOr.map Condition.toJson)),
    ("sort", .arr (q.sort.map SortKey.toJson)),
    ("page", .ofOption Page.toJson q.page),
    ("distinct", .ofOption .str q.distinct),
    ("select", selectToJson q.select),
    ("unwind", .ofOption .str q.unwind),
    ("minimal", .bool q.minimal),
    ("only", .strings q.only),
    ("count_only", .bool q.countOnly)]

end CostQuery

import CostQuery.Request.Basic

/-! Requests read from documents, and written. -/

namespace CostQuery
namespace Request

def optionalText (n : Node) : Option (Option String) := n.toOption? Node.toText?

def Condition.ofNode? (format : Format) (n : Node) : Option Condition := do
  match ← n.parts? format [["key", "k"], ["value", "v"], ["operator", "o"]] with
  | [some key, value, operator] =>
    return {
      key := ← key.toText?
      value := ← partOr .null Node.toJson? value
      operator := ← partOr none optionalText operator }
  | _ => none

def Condition.toJson (c : Condition) : Json :=
  .obj [("key", .str c.key), ("value", c.value), ("operator", .ofOption .str c.operator)]

def Field.ofNode? (format : Format) (n : Node) : Option Field := do
  match ← n.parts? format [["operator"], ["key"], ["fields"]] with
  | [operator, key, fields] =>
    return {
      operator := ← partOr none optionalText operator
      key := ← partOr none optionalText key
      fields := ← partOr none (Node.toOption? (Node.toTable? Node.toText?)) fields }
  | _ => none

def Field.toJson (f : Field) : Json :=
  .obj [("operator", .ofOption .str f.operator), ("key", .ofOption .str f.key),
    ("fields", .ofOption (fun slots => .obj (slots.map fun (k, v) => (k, .str v))) f.fields)]

def Order.ofNode? (format : Format) (n : Node) : Option Order := do
  match ← n.parts? format [["key"], ["desc"]] with
  | [some key, desc] =>
    return { key := ← key.toText?, desc := ← partOr false Node.toFlag? desc }
  | _ => none

def Order.toJson (s : Order) : Json := .obj [("key", .str s.key), ("desc", .bool s.desc)]

def Page.ofNode? (format : Format) (n : Node) : Option Page := do
  let count := Node.toOption? (Node.toNatBelow? (Nat.pow 2 64))
  match ← n.parts? format [["start"], ["limit"]] with
  | [start, limit] =>
    return { start := ← partOr none count start, limit := ← partOr none count limit }
  | _ => none

def Page.toJson (p : Page) : Json :=
  .obj [("start", .ofOption (fun n => .int n) p.start), ("limit", .ofOption (fun n => .int n) p.limit)]

/-- Whether a name is that of the path. The type of every scalar is settled first, so that an
unquoted whole number is the place of a part; no other unquoted value is a name. -/
def Unwind.isPath? : Node → Option Bool
  | .str name => some (decide (name = "path"))
  | .bare written =>
    match Scalar.resolve? written with
    | some (.str name) => some (decide (name = "path"))
    | some (.num (.int n)) => (Scalar.unsigned? written).map fun _ => decide (n = 0)
    | _ => none
  | _ => none

def Unwind.ofNode? (n : Node) : Option Unwind :=
  if !n.isComplete then none
  else match n with
    | .map entries => do
      let marked ← entries.mapM fun (k, v) => (Unwind.isPath? k).map (·, v)
      match marked.filter (·.1) with
      | [(_, path)] => (path.toJson?.bind Json.asText?).map .object
      | _ => none
    | n => (n.toJson?.bind Json.asText?).map .text

def Unwind.toJson : Unwind → Json
  | .text path => .str path
  | .object path => .obj [("path", .str path)]

end Request

namespace Request

def partNames : List (List String) :=
  [["granularity"], ["start"], ["end"], ["filter"], ["filter_or"], ["group_by"], ["fields"],
    ["field_group"], ["sort"], ["page"], ["distinct"], ["select"], ["unwind"], ["minimal"],
    ["only"], ["count_only"]]

def ofNode? (format : Format) (n : Node) : Option Request := do
  match ← n.parts? format partNames with
  | [granularity, start, finish, filter, filterOr, groupBy, fields, fieldGroup, sort, page,
      distinct, select, unwind, minimal, only, countOnly] =>
    return {
      granularity := ← partOr none optionalText granularity
      start := ← partOr none optionalText start
      finish := ← partOr none optionalText finish
      filter := ← partOr [] (Node.toList? (Condition.ofNode? format)) filter
      filterOr := ← partOr [] (Node.toList? (Condition.ofNode? format)) filterOr
      groupBy := ← partOr [] (Node.toList? Node.toJson?) groupBy
      fields := ← partOr [] (Node.toTable? (Field.ofNode? format)) fields
      fieldGroup := ← partOr [] (Node.toList? Node.toJson?) fieldGroup
      sort := ← partOr [] (Node.toList? (Order.ofNode? format)) sort
      page := ← partOr none (Node.toOption? (Page.ofNode? format)) page
      distinct := ← partOr none optionalText distinct
      select := ← partOr [] (Node.toTable? Node.toJson?) select
      unwind := ← partOr none (Node.toOption? Unwind.ofNode?) unwind
      minimal := ← partOr false Node.toFlag? minimal
      only := ← partOr [] (Node.toList? Node.toText?) only
      countOnly := ← partOr false Node.toFlag? countOnly }
  | _ => none

def toJson (r : Request) : Json :=
  .obj [("granularity", .ofOption .str r.granularity),
    ("start", .ofOption .str r.start),
    ("end", .ofOption .str r.finish),
    ("filter", .arr (r.filter.map Condition.toJson)),
    ("filter_or", .arr (r.filterOr.map Condition.toJson)),
    ("group_by", .arr r.groupBy),
    ("fields", .obj (r.fields.map fun (k, f) => (k, f.toJson))),
    ("field_group", .arr r.fieldGroup),
    ("sort", .arr (r.sort.map Order.toJson)),
    ("page", .ofOption Page.toJson r.page),
    ("distinct", .ofOption .str r.distinct),
    ("select", .obj r.select),
    ("unwind", .ofOption Unwind.toJson r.unwind),
    ("minimal", .bool r.minimal),
    ("only", .strings r.only),
    ("count_only", .bool r.countOnly)]

end Request
end CostQuery

import CostQuery.Pipeline.Basic

/-! The exchange form of pipelines. -/

namespace CostQuery.Pipeline

/-- An operator and its operands. -/
def operator (name : String) (operands : Json) : Json := .obj [(name, operands)]

def comparisonName : Comparison → String
  | .eq => "$eq"
  | .notEq => "$ne"
  | .lt => "$lt"
  | .lte => "$lte"
  | .gt => "$gt"
  | .gte => "$gte"

def arithmeticName : Arithmetic → String
  | .add => "$add"
  | .subtract => "$subtract"
  | .multiply => "$multiply"
  | .divide => "$divide"

mutual

def Expr.toJson : Expr → Json
  | .path path => .str ("$" ++ path)
  | .now => .str "$$NOW"
  | .null => .null
  | .bool b => .bool b
  | .int n => .int n
  | .text s => .str s
  | .emptyList => .arr []
  | .literal value => operator "$literal" value.toJson
  | .object members => .obj (Members.collect (membersToJson members))
  | .ifNull value default => operator "$ifNull" (.arr [value.toJson, default.toJson])
  | .cond test yes no => operator "$cond" (.arr [test.toJson, yes.toJson, no.toJson])
  | .compare op left right => operator (comparisonName op) (.arr [left.toJson, right.toJson])
  | .arithmetic op left right => operator (arithmeticName op) (.arr [left.toJson, right.toJson])
  | .size list => operator "$size" list.toJson
  | .toDate value => operator "$toDate" value.toJson
  | .startOfDay date =>
    operator "$dateTrunc" (.obj [("date", date.toJson), ("unit", .str TimeUnit.day.name)])
  | .dateAdd date unit amount =>
    operator "$dateAdd"
      (.obj [("startDate", date.toJson), ("unit", .str unit.name), ("amount", .int amount)])

def membersToJson : List (String × Expr) → List (String × Json)
  | [] => []
  | (k, e) :: rest => (k, e.toJson) :: membersToJson rest

end

/-- A pattern for either case of letters. -/
def anyCase (pattern : String) : Json := .obj [("$regex", .str pattern), ("$options", .str "i")]

def FieldTest.toJson : FieldTest → Json
  | .isNull => .null
  | .notNull => operator "$ne" .null
  | .compare op value => operator (comparisonName op) value.toJson
  | .oneOf values => operator "$in" (.arr (values.map Literal.toJson))
  | .noneOf values => operator "$nin" (.arr (values.map Literal.toJson))
  | .regex pattern => operator "$regex" (.str pattern)
  | .contains pattern => anyCase pattern
  | .lacks pattern => .obj [("$not", anyCase pattern), ("$ne", .null)]

mutual

def Match.toJson : Match → Json
  | .field key test => .obj [(key, test.toJson)]
  | .expr e => operator "$expr" e.toJson
  | .and parts => operator "$and" (.arr (matchesToJson parts))
  | .or parts => operator "$or" (.arr (matchesToJson parts))

def matchesToJson : List Match → List Json
  | [] => []
  | m :: rest => m.toJson :: matchesToJson rest

end

def Accumulator.toJson : Accumulator → Json
  | .sum input => operator "$sum" input.toJson
  | .avg input => operator "$avg" input.toJson
  | .max input => operator "$max" input.toJson
  | .min input => operator "$min" input.toJson
  | .push input => operator "$push" input.toJson
  | .addToSet input => operator "$addToSet" input.toJson

def Shown.toJson : Shown → Json
  | .drop => .int 0
  | .keep => .int 1
  | .expr e => e.toJson

/-- Of members of one name the first gives the place and the last the value. -/
def collected {α : Type} (f : α → Json) (members : List (String × α)) : Json :=
  .obj (Members.collect (members.map fun (k, a) => (k, f a)))

/-- The key of a group, null where it has no members. -/
def groupKey (key : List (String × Expr)) : Json :=
  if key.isEmpty then .null else collected Expr.toJson key

def Stage.toJson : Stage → Json
  | .unwind path =>
    operator "$unwind" (.obj [("path", .str ("$" ++ path)),
      ("preserveNullAndEmptyArrays", .bool true)])
  | .match test => operator "$match" test.toJson
  | .group key accumulators =>
    operator "$group"
      (.obj (Members.collect
        (("_id", groupKey key) :: accumulators.map fun (k, a) => (k, a.toJson))))
  | .project members => operator "$project" (collected Shown.toJson members)
  | .sort keys => operator "$sort" (collected (fun desc => .int (if desc then -1 else 1)) keys)
  | .skip n => operator "$skip" (.int n)
  | .limit n => operator "$limit" (.int n)

end CostQuery.Pipeline

import CostQuery.Json.Text
import CostQuery.Record.Merge

/-! Records grouped again under a coarser dimension, and the tail of a ranking folded. -/

namespace CostQuery

/-- A scalar as the key of a table. -/
def Json.keyText? : Json → Option String
  | .str s => some s
  | .num n => some (Json.text (.num n))
  | .bool b => some (Json.text (.bool b))
  | _ => none

namespace Record

/-- The record under the target that its dimension is mapped to, which comes first. -/
def mapped? (mapping : Members String) (dimension target : String) (row : Record) :
    Option Record := do
  let key ← (row.get? dimension).bind Json.keyText?
  let id ← mapping.get? key
  return Members.collect ((target, .str id) ::
    row.filter fun (k, _) => k ≠ dimension && k ≠ target)

/-- The text that two records share if they agree on all columns but the values. -/
def groupText (valueFields : List String) (row : Record) : String :=
  let columns := Members.collectSorted (row.filter fun (k, _) => !valueFields.contains k)
  "\x1f".intercalate (columns.map fun (k, v) => k ++ "=" ++ v.text)

/-- Merge a value into a record that has it, or that lacks it. -/
def mergeField (row : Record) (field : String) (value : Json) : Record :=
  row.put field (Json.merge ((row.get? field).getD .null) value)

def mergeFields (valueFields : List String) (row other : Record) : Record :=
  valueFields.foldl (fun row field =>
    match other.get? field with
    | some value => row.mergeField field value
    | none => row) row

/-- Groups in the order in which they first came. -/
def addToGroup (valueFields : List String) (groups : Members Record) (row : Record) :
    Members Record :=
  let key := row.groupText valueFields
  groups.put key (match groups.get? key with
    | some group => group.mergeFields valueFields row
    | none => row)

/-- Records whose dimension is not mapped are left out. -/
def rollup (rows : List Record) (dimension target : String) (mapping : Members String)
    (valueFields : List String) : List Record :=
  ((rows.filterMap (mapped? mapping dimension target)).foldl (addToGroup valueFields) []).map
    Prod.snd

/-- One record for all of the rows: each field merged over the rows that have it. -/
def others (rows : List Record) (valueFields : List String) : Record :=
  Members.collect (("is_others", .bool true) :: valueFields.map fun field =>
    (field, (rows.filterMap (·.get? field)).foldl Json.merge .null))

/-- The first records, and one for the rest. -/
def othersBucket (rows : List Record) (limit : Nat) (valueFields : List String) : List Record :=
  if rows.length ≤ limit then rows
  else rows.take limit ++ [others (rows.drop limit) valueFields]

end Record
end CostQuery

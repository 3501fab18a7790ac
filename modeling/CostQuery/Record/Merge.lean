import CostQuery.Record.Basic

/-! Values merged: numbers add up, and objects merge member by member. -/

namespace CostQuery

/-- A whole sum that fits stays whole. -/
def Number.add (a b : Number) : Json :=
  match a, b with
  | .int x, .int y =>
    if isSignedWord x && isSignedWord y && isSignedWord (x + y) then .int (x + y)
    else .ofFloat (a.toFloat + b.toFloat)
  | a, b => .ofFloat (a.toFloat + b.toFloat)

mutual

/-- Null gives way; of values that do not merge the current one stays. -/
def Json.merge : Json → Json → Json
  | .null, v => v
  | .num a, .num b => a.add b
  | .obj members, .obj others => .obj (mergeMembers members others)
  | current, _ => current

def mergeMembers (members : Members Json) : List (String × Json) → Members Json
  | [] => members
  | (k, v) :: rest =>
    mergeMembers (members.put k (Json.merge ((members.get? k).getD .null) v)) rest

end

end CostQuery

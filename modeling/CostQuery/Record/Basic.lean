import CostQuery.Decimal.Bounded
import CostQuery.Json.Basic

/-! Records: rows of a result, as exchange values. -/

namespace CostQuery

abbrev Record := Members Json

def decimalToJson (d : Decimal.Bounded) : Json := .ofFloat d.toFloat

namespace Json

/-- The text of a wrapped decimal: an object of nothing else. -/
def wrappedDecimal? : List (String × Json) → Option String
  | [("$numberDecimal", .str text)] => some text
  | _ => none

/-- The number of a decimal's text, or the text itself if it is none. -/
def ofDecimalText (text : String) : Json :=
  match Decimal.Bounded.ofText? text with
  | some d => decimalToJson d
  | none => .str text

mutual

/-- Wrapped decimals become numbers, at any depth. -/
def unwrapped : Json → Json
  | .arr items => .arr (unwrappedItems items)
  | .obj members =>
    match wrappedDecimal? members with
    | some text => ofDecimalText text
    | none => .obj (unwrappedMembers members)
  | v => v

def unwrappedItems : List Json → List Json
  | [] => []
  | v :: rest => v.unwrapped :: unwrappedItems rest

def unwrappedMembers : List (String × Json) → List (String × Json)
  | [] => []
  | (k, v) :: rest => (k, v.unwrapped) :: unwrappedMembers rest

end

def asObject? : Json → Option (Members Json)
  | .obj members => some members
  | _ => none

end Json

/-- The records of documents; whatever is no object is left out. -/
def Record.ofDocuments (rows : List Json) : List Record :=
  rows.filterMap fun row => row.unwrapped.asObject?

end CostQuery

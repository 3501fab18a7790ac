import CostQuery.Json.Text

/-! Scalars that filters and computed columns carry. -/

namespace CostQuery

inductive Literal where
  | null
  | bool (value : Bool)
  | int (value : Int)
  | float (value : Float)
  | text (value : String)

namespace Literal

/-- Whole numbers beyond the signed ones of 64 bits become floats; lists and objects are none. -/
def ofJson? : Json → Option Literal
  | .null => some .null
  | .bool b => some (.bool b)
  | .num (.int n) => some (if isSignedWord n then .int n else .float (Float.ofInt n))
  | .num (.float x) => some (.float x)
  | .str s => some (.text s)
  | .arr _ => none
  | .obj _ => none

def toJson : Literal → Json
  | .null => .null
  | .bool b => .bool b
  | .int n => .int n
  | .float x => .ofFloat x
  | .text s => .str s

def isNull : Literal → Bool
  | .null => true
  | _ => false

def asText? : Literal → Option String
  | .text s => some s
  | _ => none

def plainFloat (x : Float) : String := String.ofList (Decimal.plain.chars x)

/-- The text that stands for a value where it is matched as text. -/
def toText : Literal → String
  | .null => ""
  | .bool b => if b then "true" else "false"
  | .int n => toString n
  | .float x => plainFloat x
  | .text s => s

end Literal
end CostQuery

import CostQuery.Members

/-! Exchange values: scalars, lists, and objects whose members keep their order. -/

namespace CostQuery

inductive Number where
  | int (value : Int)
  | float (value : Float)

/-- Whole numbers that fit 64 bits, signed or not. -/
def isWord (n : Int) : Bool := decide (-Nat.pow 2 63 ≤ n ∧ n < Nat.pow 2 64)

def isSignedWord (n : Int) : Bool := decide (-Nat.pow 2 63 ≤ n ∧ n < Nat.pow 2 63)

def Number.toFloat : Number → Float
  | .int n => Float.ofInt n
  | .float x => x

inductive Json where
  | null
  | bool (value : Bool)
  | num (value : Number)
  | str (value : String)
  | arr (items : List Json)
  | obj (members : List (String × Json))

namespace Json

def int (n : Int) : Json := .num (.int n)

/-- A float without a value among the numbers becomes null. -/
def ofFloat (x : Float) : Json := if x.isFinite then .num (.float x) else .null

def strings (texts : List String) : Json := .arr (texts.map .str)

def ofOption {α : Type} (f : α → Json) : Option α → Json
  | none => .null
  | some a => f a

def asText? : Json → Option String
  | .str s => some s
  | _ => none

def isNull : Json → Bool
  | .null => true
  | _ => false

/-- The named member, of an object that has it. -/
def member? : Json → String → Option Json
  | .obj members, key => Members.get? members key
  | _, _ => none

end Json
end CostQuery

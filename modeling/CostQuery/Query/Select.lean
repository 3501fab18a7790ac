import CostQuery.Filter.Literal

/-! Computed columns as requests define them. -/

namespace CostQuery

inductive Arithmetic where
  | add
  | subtract
  | multiply
  | divide
deriving DecidableEq

namespace Arithmetic

def all : List Arithmetic := [.add, .subtract, .multiply, .divide]

def name : Arithmetic → String
  | .add => "add"
  | .subtract => "subtract"
  | .multiply => "multiply"
  | .divide => "divide"

def ofName? (name : String) : Option Arithmetic := all.find? (·.name = name)

end Arithmetic

inductive SelectExpr where
  | field (key : String)
  | literal (value : Literal)
  | arithmetic (op : Arithmetic) (operands : List SelectExpr)
  /-- The number of items in a list column. -/
  | size (key : String)

namespace SelectExpr

def sizeOfKey? (key : Option Json) : Option SelectExpr :=
  match key.bind Json.asText? with
  | some key => if key.isEmpty then none else some (.size key)
  | none => none

/-- A definition by its operator; arithmetic takes two operands or more. -/
def ofOperator? (operator : String) (members : Members Json)
    (operands : Option (List SelectExpr)) : Option SelectExpr :=
  if operator = "size" then sizeOfKey? (members.get? "key")
  else do
    let op ← Arithmetic.ofName? operator
    let operands ← operands
    if operands.length < 2 then none else some (.arithmetic op operands)

mutual

/-- A key, a number or truth value, a marked literal, a size, or arithmetic. -/
def ofJson? : Json → Option SelectExpr
  | .str key => if key.isEmpty then none else some (.field key)
  | .num n => (Literal.ofJson? (.num n)).map .literal
  | .bool b => some (.literal (.bool b))
  | .obj members =>
    match Members.get? members "literal" with
    | some value => (Literal.ofJson? value).map .literal
    | none => do
      let operator ← (Members.get? members "operator").bind Json.asText?
      ofOperator? operator members (operandsOfMembers? members)
  | _ => none

/-- The operands listed under `fields`. -/
def operandsOfMembers? : List (String × Json) → Option (List SelectExpr)
  | [] => none
  | (k, v) :: rest => if k = "fields" then operandsOf? v else operandsOfMembers? rest

def operandsOf? : Json → Option (List SelectExpr)
  | .arr items => ofItems? items
  | _ => none

def ofItems? : List Json → Option (List SelectExpr)
  | [] => some []
  | v :: rest => do return (← ofJson? v) :: (← ofItems? rest)

end

end SelectExpr
end CostQuery

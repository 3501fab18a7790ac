import CostQuery.Json.Basic

/-! Documents as written, before a type is wanted of their parts. -/

namespace CostQuery

inductive Node where
  | null
  | bool (value : Bool)
  | num (value : Number)
  | str (value : String)
  /-- An unquoted scalar, whose type depends on what is wanted. -/
  | bare (text : String)
  | seq (items : List Node)
  /-- Entries as written, repeated names included. A name may be any node. -/
  | map (entries : List (Node × Node))
  /-- Well formed, but without a value: a number out of range, half a surrogate pair, too deep. -/
  | void

mutual

/-- The node without the collections that lie deeper than so many levels. -/
def Node.within : Nat → Node → Node
  | 0, .seq _ => .void
  | 0, .map _ => .void
  | levels + 1, .seq items => .seq (itemsWithin levels items)
  | levels + 1, .map entries => .map (entriesWithin levels entries)
  | _, n => n

def itemsWithin : Nat → List Node → List Node
  | _, [] => []
  | levels, n :: rest => n.within levels :: itemsWithin levels rest

def entriesWithin : Nat → List (Node × Node) → List (Node × Node)
  | _, [] => []
  | levels, (k, n) :: rest => (k.within levels, n.within levels) :: entriesWithin levels rest

end

/-- The two ways to write a document. -/
inductive Format where
  | json
  | yaml
deriving DecidableEq

end CostQuery

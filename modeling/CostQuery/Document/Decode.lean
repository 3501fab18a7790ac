import CostQuery.Document.Scalar

/-! Values wanted of documents. -/

namespace CostQuery

/-- Text, or any unquoted scalar as it is written. -/
def Node.toText? : Node → Option String
  | .str s => some s
  | .bare text => some text
  | _ => none

mutual

/-- The node as a value of any type. -/
def Node.toJson? : Node → Option Json
  | .null => some .null
  | .bool b => some (.bool b)
  | .num n => some (.num n)
  | .str s => some (.str s)
  | .bare text => Scalar.resolve? text
  | .seq items => (toJsonItems? items).map .arr
  | .map entries => (toJsonEntries? entries).map fun es => .obj (Members.collect es)
  | .void => none

def toJsonItems? : List Node → Option (List Json)
  | [] => some []
  | n :: rest => do return (← n.toJson?) :: (← toJsonItems? rest)

def toJsonEntries? : List (Node × Node) → Option (List (String × Json))
  | [] => some []
  | (k, n) :: rest => do return (← k.toText?, ← n.toJson?) :: (← toJsonEntries? rest)

end

mutual

/-- A value as the node that writes it. -/
def Node.ofJson : Json → Node
  | .null => .null
  | .bool b => .bool b
  | .num n => .num n
  | .str s => .str s
  | .arr items => .seq (ofJsonItems items)
  | .obj members => .map (ofJsonMembers members)

def ofJsonItems : List Json → List Node
  | [] => []
  | v :: rest => Node.ofJson v :: ofJsonItems rest

def ofJsonMembers : List (String × Json) → List (Node × Node)
  | [] => []
  | (k, v) :: rest => (.str k, Node.ofJson v) :: ofJsonMembers rest

end

mutual

/-- Every part of the node, names included, has a value where any type is wanted. -/
def Node.isComplete : Node → Bool
  | .bare text => (Scalar.resolve? text).isSome
  | .seq items => areComplete items
  | .map entries => areCompleteEntries entries
  | .void => false
  | _ => true

def areComplete : List Node → Bool
  | [] => true
  | n :: rest => n.isComplete && areComplete rest

def areCompleteEntries : List (Node × Node) → Bool
  | [] => true
  | (k, n) :: rest => k.isComplete && n.isComplete && areCompleteEntries rest

end

namespace Node
variable {α : Type}

def toFlag? : Node → Option Bool
  | .bool b => some b
  | .bare text => Scalar.truth? text
  | _ => none

/-- A whole number from zero to below the bound. -/
def toNatBelow? (bound : Nat) (n : Node) : Option Nat :=
  let value := match n with
    | .num (.int n) => if 0 ≤ n then some n.toNat else none
    | .bare text => Scalar.unsigned? text
    | _ => none
  value.filter fun n => decide (n < bound)

/-- A whole number of 64 bits with a sign. -/
def toSigned? (n : Node) : Option Int :=
  let value := match n with
    | .num (.int n) => some n
    | .bare text => Scalar.integer? text
    | _ => none
  value.filter isSignedWord

def isAbsent : Node → Bool
  | .null => true
  | .bare text => text.isEmpty || Scalar.isNull text
  | _ => false

/-- A value that may be null. -/
def toOption? (read : Node → Option α) (n : Node) : Option (Option α) :=
  if n.isAbsent then some none else (read n).map some

/-- In indented documents a value that is left out stands for an empty collection. -/
def isEmptyCollection : Node → Bool
  | .bare text => text.isEmpty
  | _ => false

def toList? (read : Node → Option α) (n : Node) : Option (List α) :=
  match n with
  | .seq items => items.mapM read
  | n => if n.isEmptyCollection then some [] else none

def toEntries? (n : Node) : Option (List (String × Node)) :=
  match n with
  | .map entries => entries.mapM fun (k, v) => k.toText?.map (·, v)
  | n => if n.isEmptyCollection then some [] else none

/-- A table from names to values, in ascending order of name. -/
def toTable? (read : Node → Option α) (n : Node) : Option (Members α) := do
  let entries ← n.toEntries?
  return Members.collectSorted (← entries.mapM fun (k, v) => (read v).map (k, ·))

/-- The one entry that goes by one of the names; none twice. -/
def part? (entries : List (String × Node)) (names : List String) : Option (Option Node) :=
  match entries.filter fun e => names.contains e.1 with
  | [] => some none
  | [e] => some (some e.2)
  | _ => none

/-- The parts of a record, each by the names it may go by; other entries are passed over.
A list in exchange text gives the parts in order, and may leave out the last ones. -/
def parts? (format : Format) (names : List (List String)) (n : Node) :
    Option (List (Option Node)) :=
  match n, format with
  | .seq items, .json =>
    if items.length ≤ names.length then
      some (items.map some ++ List.replicate (names.length - items.length) none)
    else none
  | n, _ => do
    let entries ← n.toEntries?
    names.mapM (part? entries)

end Node

/-- A part that has a default. -/
def partOr {α : Type} (default : α) (read : Node → Option α) : Option Node → Option α
  | none => some default
  | some n => read n

end CostQuery

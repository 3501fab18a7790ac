import CostQuery.Plan.Fault

/-! Identifiers of SQL text. They need no escapes, whatever they are quoted with. -/

namespace CostQuery.Sql

def isNameStart (c : Char) : Bool := c.isAlpha || c = '_'

def isNameChar (c : Char) : Bool := c.isAlphanum || c = '_'

/-- A letter or underscore, then letters, digits and underscores. -/
def isName : List Char → Bool
  | [] => false
  | c :: rest => isNameStart c && rest.all isNameChar

structure Name where
  text : String
  valid : isName text.toList = true
deriving DecidableEq

namespace Name

def ofText (text : String) : Compiled Name :=
  if h : isName text.toList = true then .ok ⟨text, h⟩ else .error (.invalidIdentifier text)

end Name

/-- The parts between dots; one more than there are dots. -/
def dotParts : List Char → List (List Char)
  | [] => [[]]
  | c :: rest =>
    if c = '.' then [] :: dotParts rest
    else match dotParts rest with
      | [] => [[c]]
      | part :: parts => (c :: part) :: parts

/-- A table, perhaps with the schema that holds it. -/
def tableName (text : String) : Compiled (List Name) :=
  (dotParts text.toList).mapM fun part => Name.ofText (String.ofList part)

end CostQuery.Sql

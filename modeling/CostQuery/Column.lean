/-! Columns as requests name them: a stored column, and a key inside it. -/

namespace CostQuery

/-- `tags.Name` is the key `Name` of the column `tags`. -/
structure Column where
  root : String
  sub : Option String
deriving DecidableEq

namespace Column

def dropTrailingDots (cs : List Char) : List Char := (cs.reverse.dropWhile (· = '.')).reverse

/-- The first dot divides; without a key after it there is none, and trailing dots are dropped. -/
def ofKey (key : String) : Column :=
  let cs := key.toList
  match cs.dropWhile (· ≠ '.') with
  | '.' :: c :: rest =>
    ⟨String.ofList (cs.takeWhile (· ≠ '.')), some (String.ofList (c :: rest))⟩
  | _ => ⟨String.ofList (dropTrailingDots cs), none⟩

/-- The dotted form. -/
def key (c : Column) : String :=
  match c.sub with
  | some sub => c.root ++ "." ++ sub
  | none => c.root

/-- It is the other column, or lies beneath it. -/
def isUnder (c other : Column) : Bool :=
  c.key = other.key || (other.key ++ ".").toList.isPrefixOf c.key.toList

end Column
end CostQuery

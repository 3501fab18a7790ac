/-! Aliases: every output column goes by a plain identifier, made from its name. -/

namespace CostQuery

namespace Alias

def isWordChar (c : Char) : Bool := c.isAlphanum || c = '_'

/-- An alias is not empty and does not begin with a digit. -/
def guardChars (cs : List Char) : List Char :=
  match cs with
  | [] => ['_']
  | c :: rest => if c.isDigit then '_' :: c :: rest else c :: rest

/-- Characters outside words become underscores. -/
def ofName (name : String) : String :=
  String.ofList (guardChars (name.toList.map fun c => if isWordChar c then c else '_'))

end Alias

/-- An output column: its identifier inside a query, and its name in results. -/
structure OutputColumn where
  ident : String
  name : String

/-- A name whose identifier another name holds. -/
structure Collision where
  ident : String
  kept : String
  dropped : String

inductive Registration where
  | new (ident : String)
  /-- The name was registered before. -/
  | existing (ident : String)
  /-- Another name holds the identifier, and keeps it. -/
  | collision (ident : String)

namespace Registration

def ident : Registration → String
  | .new ident => ident
  | .existing ident => ident
  | .collision ident => ident

def newIdent? : Registration → Option String
  | .new ident => some ident
  | _ => none

end Registration

/-- The names registered so far, and the names refused, in order. -/
structure Registry where
  entries : List OutputColumn := []
  collisions : List Collision := []

namespace Registry

def ownerOf? (r : Registry) (ident : String) : Option OutputColumn :=
  r.entries.find? (·.ident = ident)

/-- The first name to take an identifier holds it. -/
def register (r : Registry) (name : String) : Registration × Registry :=
  let ident := Alias.ofName name
  match r.ownerOf? ident with
  | none => (.new ident, { r with entries := r.entries ++ [⟨ident, name⟩] })
  | some owner =>
    if owner.name = name then (.existing ident, r)
    else
      (.collision ident, { r with collisions := r.collisions ++ [⟨ident, owner.name, name⟩] })

def identOf? (r : Registry) (name : String) : Option String :=
  (r.entries.find? (·.name = name)).map (·.ident)

def containsIdent (r : Registry) (ident : String) : Bool := r.entries.any (·.ident = ident)

end Registry
end CostQuery

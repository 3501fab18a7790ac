import CostQuery.Yaml.Cursor
import CostQuery.Yaml.Token

/-! Tokens that the text only implies: where indentations begin and end, and where names begin,
which a later colon tells. -/

namespace CostQuery.Yaml

/-- A place where a name begins if a colon follows. -/
structure NamePlace extends Place where
  /-- How many tokens come before it. -/
  position : Nat
  /-- Nothing but a name can stand there. -/
  required : Bool

/-- A name and its colon stand on one line, at most 1024 bytes apart. -/
def NamePlace.reaches (n : NamePlace) (p : Place) : Bool :=
  p.line ≤ n.line && p.offset ≤ n.offset + 1024

structure Layout where
  /-- Latest first. -/
  tokens : List Token
  /-- Columns of the open indentations, innermost first. -/
  columns : List Nat
  nameAllowed : Bool
  /-- The latest place of a name inside the innermost brackets. -/
  name : Option NamePlace
  /-- Those outside each open bracket, innermost first. -/
  outerNames : List (Option NamePlace)

namespace Layout

def empty : Layout := ⟨[], [], true, none, []⟩

def inFlow (l : Layout) : Bool := !l.outerNames.isEmpty

/-- The first column in which an unquoted scalar may go on. -/
def scalarColumn (l : Layout) : Nat := l.columns.head?.elim 0 (· + 1)

def emit (l : Layout) (t : Token) : Layout := { l with tokens := t :: l.tokens }

def allowName (l : Layout) (allowed : Bool) : Layout := { l with nameAllowed := allowed }

/-- Insert tokens after the first ones. -/
def insertAt (l : Layout) (position : Nat) (ts : List Token) : Layout :=
  let later := l.tokens.length - position
  { l with tokens := l.tokens.take later ++ ts.reverse ++ l.tokens.drop later }

/-- Give up the places that a colon can no longer reach; none of them may be required. -/
def dropUnreached (l : Layout) (p : Place) : Option Layout := do
  let keep : Option NamePlace → Option (Option NamePlace)
    | some n => if n.reaches p then some (some n) else if n.required then none else some none
    | none => some none
  return { l with name := ← keep l.name, outerNames := ← l.outerNames.mapM keep }

/-- Give up the latest place of a name. -/
def dropName (l : Layout) : Option Layout :=
  if l.name.any (·.required) then none else some { l with name := none }

/-- A name may begin here, if one is allowed. -/
def markName (l : Layout) (p : Place) : Option Layout :=
  if l.nameAllowed then
    let required := !l.inFlow && l.columns.head? = some p.column
    l.dropName.map fun l => { l with name := some ⟨p, l.tokens.length, required⟩ }
  else some l

/-- Whether a column lies deeper than the open indentations; brackets have none. -/
def isDeeper (l : Layout) (column : Nat) : Bool := !l.inFlow && l.columns.head?.all (· < column)

def openAt (l : Layout) (column : Nat) (t : Token) : Layout :=
  if l.isDeeper column then { l with columns := column :: l.columns }.emit t else l

/-- End the indentations that hold of a column. -/
def close (l : Layout) (ends : Nat → Bool) : Layout :=
  if l.inFlow then l
  else
    let closed := l.columns.takeWhile ends
    { l with
      columns := l.columns.drop closed.length
      tokens := List.replicate closed.length .blockEnd ++ l.tokens }

/-- End the indentations deeper than a column. -/
def closeTo (l : Layout) (column : Nat) : Layout := l.close fun n => decide (column < n)

def closeAll (l : Layout) : Layout := l.close fun _ => true

def openBracket (l : Layout) (p : Place) (t : Token) : Option Layout := do
  let l ← l.markName p
  return { l.emit t with nameAllowed := true, name := none, outerNames := l.name :: l.outerNames }

def closeBracket (l : Layout) (t : Token) : Option Layout := do
  let l := (← l.dropName).emit t
  return match l.outerNames with
    | [] => { l with nameAllowed := false }
    | name :: outer => { l with nameAllowed := false, name, outerNames := outer }

def comma (l : Layout) : Option Layout := do
  return (← l.dropName).emit .comma |>.allowName true

def item (l : Layout) (p : Place) : Option Layout := do
  if !l.inFlow && !l.nameAllowed then none
  else return (← (l.openAt p.column .blockSeq).dropName).emit .item |>.allowName true

/-- A question mark before a name. -/
def markedName (l : Layout) (p : Place) : Option Layout := do
  if !l.inFlow && !l.nameAllowed then none
  else return (← (l.openAt p.column .blockMap).dropName).emit .name |>.allowName (!l.inFlow)

/-- A colon. It tells that a name began at the place that is kept, if there is one. -/
def value (l : Layout) (p : Place) : Option Layout :=
  match l.name with
  | some n =>
    let opened := if l.isDeeper n.column then [Token.blockMap] else []
    let columns := if l.isDeeper n.column then n.column :: l.columns else l.columns
    let l : Layout := { l with columns, name := none, nameAllowed := false }
    some ((l.insertAt n.position (opened ++ [.name])).emit .value)
  | none =>
    if !l.inFlow && !l.nameAllowed then none
    else some (((l.openAt p.column .blockMap).emit .value).allowName (!l.inFlow))

/-- Three dashes or three points end all indentations. -/
def marker (l : Layout) (t : Token) : Option Layout := do
  return (← l.closeAll.dropName).emit t |>.allowName false

def scalar (l : Layout) (text : List Char) (quoted endsLine : Bool) : Layout :=
  l.emit (.scalar (String.ofList text) quoted) |>.allowName endsLine

end Layout
end CostQuery.Yaml

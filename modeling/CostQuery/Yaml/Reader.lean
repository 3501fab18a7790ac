import CostQuery.Document.Node
import CostQuery.Yaml.Lexer

/-! Reading indented documents: block and flow collections, quoted and unquoted scalars. -/

namespace CostQuery.Yaml

abbrev Parsed := Option (Node × List Token)

/-- A value that is left out. -/
def nothing : Node := .bare ""

/-- Where a node stands: inside brackets no indentation may begin, and the items of a list that
is a name or a value may begin in the column of the name. -/
inductive Position where
  | bracketed
  | item
  | part
deriving DecidableEq

mutual

def node : Nat → Position → List Token → Parsed
  | 0, _, _ => none
  | fuel + 1, place, ts =>
    match ts with
    | .scalar text quoted :: rest => some (if quoted then .str text else .bare text, rest)
    | .openSeq :: rest => flowItems fuel [] rest
    | .openMap :: rest => flowEntries fuel [] rest
    | .blockSeq :: rest => if place ≠ .bracketed then blockItems fuel [] rest else none
    | .blockMap :: rest => if place ≠ .bracketed then blockEntries fuel [] rest else none
    | .item :: rest => if place = .part then unindentedItems fuel [] (.item :: rest) else none
    | _ => none

/-- A node that one of the given tokens may stand for, as nothing. -/
def optional : Nat → Position → List Token → List Token → Parsed
  | 0, _, _, _ => none
  | fuel + 1, place, ends, ts =>
    if ts.head?.any ends.contains then some (nothing, ts) else node fuel place ts

def blockItems : Nat → List Node → List Token → Parsed
  | 0, _, _ => none
  | fuel + 1, done, ts =>
    match ts with
    | .item :: rest => do
      let (n, rest) ← optional fuel .item [.item, .blockEnd] rest
      blockItems fuel (n :: done) rest
    | .blockEnd :: rest => some (.seq done.reverse, rest)
    | _ => none

def unindentedItems : Nat → List Node → List Token → Parsed
  | 0, _, _ => none
  | fuel + 1, done, ts =>
    match ts with
    | .item :: rest => do
      let (n, rest) ← optional fuel .item [.item, .name, .value, .blockEnd] rest
      unindentedItems fuel (n :: done) rest
    | _ => some (.seq done.reverse, ts)

/-- A colon and the value after it; both may be left out. -/
def valueOf : Nat → Position → List Token → List Token → Parsed
  | 0, _, _, _ => none
  | fuel + 1, place, ends, ts =>
    match ts with
    | .value :: rest => optional fuel place ends rest
    | _ => some (nothing, ts)

def blockEntries : Nat → List (Node × Node) → List Token → Parsed
  | 0, _, _ => none
  | fuel + 1, done, ts =>
    match ts with
    | .name :: rest => do
      let ends := [Token.name, .value, .blockEnd]
      let (name, rest) ← optional fuel .part ends rest
      let (value, rest) ← valueOf fuel .part ends rest
      blockEntries fuel ((name, value) :: done) rest
    | .blockEnd :: rest => some (.map done.reverse, rest)
    | _ => none

/-- Items between brackets; one may be a single entry written without braces. -/
def flowItems : Nat → List Node → List Token → Parsed
  | 0, _, _ => none
  | fuel + 1, done, ts =>
    match ts with
    | .closeSeq :: rest => some (.seq done.reverse, rest)
    | _ => do
      let (n, rest) ← match ts with
        | .name :: rest => singleEntry fuel rest
        | _ => node fuel .bracketed ts
      match rest with
      | .comma :: rest => flowItems fuel (n :: done) rest
      | .closeSeq :: rest => some (.seq (n :: done).reverse, rest)
      | _ => none

/-- An entry after the mark of its name. A name that is left out takes the next token with it. -/
def singleEntry : Nat → List Token → Parsed
  | 0, _ => none
  | fuel + 1, ts => do
    let (name, rest) ←
      if ts.head?.any [Token.value, .comma, .closeSeq].contains then some (nothing, ts.drop 1)
      else node fuel .bracketed ts
    let (value, rest) ← valueOf fuel .bracketed [.comma, .closeSeq] rest
    return (.map [(name, value)], rest)

def flowEntries : Nat → List (Node × Node) → List Token → Parsed
  | 0, _, _ => none
  | fuel + 1, done, ts =>
    match ts with
    | .closeMap :: rest => some (.map done.reverse, rest)
    | _ => do
      let (name, value, rest) ← match ts with
        | .name :: rest => do
          let (name, rest) ← optional fuel .bracketed [.value, .comma, .closeMap] rest
          let (value, rest) ← valueOf fuel .bracketed [.comma, .closeMap] rest
          pure (name, value, rest)
        | _ => do
          let (name, rest) ← node fuel .bracketed ts
          pure (name, nothing, rest)
      match rest with
      | .comma :: rest => flowEntries fuel ((name, value) :: done) rest
      | .closeMap :: rest => some (.map ((name, value) :: done).reverse, rest)
      | _ => none

end

/-- Collections nested deeper have no value. -/
def maxDepth : Nat := 128

/-- One document, which its start mark may precede and end marks follow. Each token of the text
opens at most four calls. -/
def readNode? (text : String) : Option Node := do
  let ts ← tokens? text
  let fuel := 4 * ts.length + 4
  let (n, rest) ← match ts with
    | [] => some (nothing, [])
    | .start :: [] => some (nothing, [])
    | .start :: rest => optional fuel .item [.start, .finish] rest
    | _ => node fuel .item ts
  if rest.all (· = .finish) then some (n.within maxDepth) else none

end CostQuery.Yaml

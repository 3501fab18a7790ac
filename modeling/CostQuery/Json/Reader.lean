import CostQuery.Json.Token

/-! Reading exchange text. -/

namespace CostQuery.Json

/-- A list or an object part way through, its parts latest first. -/
inductive Frame where
  | list (done : List Node)
  | object (done : List (Option String × Node))
  | member (done : List (Option String × Node)) (name : Option String)

/-- What may come next. -/
inductive Turn where
  | value
  | valueOrClose
  | nameOrClose
  | name
  | colon
  | commaOrClose
  | finished (result : Node)

structure Progress where
  frames : List Frame
  turn : Turn

/-- An object in which a name has no value has none itself. -/
def ofEntries (done : List (Option String × Node)) : Node :=
  match done.reverse.mapM fun (name, value) => name.map fun name => (Node.str name, value) with
  | some entries => .map entries
  | none => .void

/-- Give a finished value to the innermost frame. -/
def deliver (value : Node) : List Frame → Option Progress
  | [] => some ⟨[], .finished value⟩
  | .list done :: rest => some ⟨.list (value :: done) :: rest, .commaOrClose⟩
  | .member done name :: rest => some ⟨.object ((name, value) :: done) :: rest, .commaOrClose⟩
  | .object _ :: _ => none

def openValue (frames : List Frame) : Token → Option Progress
  | .openList => some ⟨.list [] :: frames, .valueOrClose⟩
  | .openObject => some ⟨.object [] :: frames, .nameOrClose⟩
  | .null => deliver .null frames
  | .bool b => deliver (.bool b) frames
  | .num n => deliver (n.elim .void .num) frames
  | .str s => deliver (s.elim .void .str) frames
  | _ => none

def openName (frames : List Frame) : Token → Option Progress
  | .str name =>
    match frames with
    | .object done :: rest => some ⟨.member done name :: rest, .colon⟩
    | _ => none
  | _ => none

def step (p : Progress) (token : Token) : Option Progress :=
  match p.turn, token, p.frames with
  | .valueOrClose, .closeList, .list done :: rest => deliver (.seq done.reverse) rest
  | .commaOrClose, .closeList, .list done :: rest => deliver (.seq done.reverse) rest
  | .nameOrClose, .closeObject, .object done :: rest => deliver (ofEntries done) rest
  | .commaOrClose, .closeObject, .object done :: rest => deliver (ofEntries done) rest
  | .commaOrClose, .comma, .list done :: rest => some ⟨.list done :: rest, .value⟩
  | .commaOrClose, .comma, .object done :: rest => some ⟨.object done :: rest, .name⟩
  | .colon, .colon, frames => some ⟨frames, .value⟩
  | .value, token, frames => openValue frames token
  | .valueOrClose, token, frames => openValue frames token
  | .name, token, frames => openName frames token
  | .nameOrClose, token, frames => openName frames token
  | _, _, _ => none

/-- Collections nested deeper have no value. -/
def maxDepth : Nat := 127

/-- One value, with nothing but blanks around it. -/
def readNode? (text : String) : Option Node := do
  let tokens ← tokens? text
  let last ← tokens.foldlM step ⟨[], .value⟩
  match last.turn with
  | .finished node => some (node.within maxDepth)
  | _ => none

end CostQuery.Json

import CostQuery.Json.Reader
import CostQuery.Text.Blank
import CostQuery.Yaml.Reader

/-! Documents read from text in either format. -/

namespace CostQuery

inductive DocumentFault where
  /-- The source of the text could not be read. -/
  | unreadable
  | json
  | yaml

namespace Format

/-- A document that begins with a brace is exchange text. -/
def ofText (text : String) : Format :=
  if (Text.dropBlanks text.toList).head? = some '{' then .json else .yaml

def readNode? : Format → String → Option Node
  | .json => Json.readNode?
  | .yaml => Yaml.readNode?

def fault : Format → DocumentFault
  | .json => .json
  | .yaml => .yaml

end Format

/-- Read a document as what is wanted of it. -/
def readDocument {α : Type} (decode : Format → Node → Option α) (text : String) :
    Except DocumentFault α :=
  let format := Format.ofText text
  match (format.readNode? text).bind (decode format) with
  | some a => .ok a
  | none => .error format.fault

/-- Read a document from the contents of a file, if it has any. -/
def readContents {α : Type} (decode : Format → Node → Option α) :
    Option String → Except DocumentFault α
  | none => .error .unreadable
  | some text => readDocument decode text

end CostQuery

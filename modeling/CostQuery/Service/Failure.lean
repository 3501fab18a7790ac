/-! Failures that collaborators report. -/

namespace CostQuery

inductive Failure where
  /-- Worth another attempt. -/
  | transient (detail : String)
  | syntaxRejected (detail : String)
  | semanticsRejected (detail : String)
  | other (detail : String)

def Failure.message : Failure → String
  | .transient detail => "transient backend failure: " ++ detail
  | .syntaxRejected detail => "query syntax rejected: " ++ detail
  | .semanticsRejected detail => "query semantics rejected: " ++ detail
  | .other detail => "backend failure: " ++ detail

def Failure.isTransient : Failure → Bool
  | .transient _ => true
  | _ => false

abbrev Outcome (α : Type) := Except Failure α

end CostQuery

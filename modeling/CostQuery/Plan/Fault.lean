/-! Why a plan cannot be written for a store. -/

namespace CostQuery

inductive CompileFault where
  | invalidIdentifier (name : String)
  /-- The aggregate is of a column, and none is given. -/
  | missingInput (ident : String)
  | noOperands
  | noGroup
  | noProjection

def CompileFault.message : CompileFault → String
  | .invalidIdentifier name => "Invalid identifier: '" ++ name ++ "'"
  | .missingInput ident => "Invalid plan: aggregate '" ++ ident ++ "' needs an input column"
  | .noOperands => "Unsupported expression: arithmetic without operands"
  | .noGroup => "Invalid plan: analyze plan has no group stage"
  | .noProjection => "Invalid plan: analyze plan has no projection"

abbrev Compiled := Except CompileFault

end CostQuery

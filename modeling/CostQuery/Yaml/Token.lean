/-! Tokens of indented documents. -/

namespace CostQuery.Yaml

inductive Token where
  | scalar (text : String) (quoted : Bool)
  /-- The indentation at which a list of items begins. -/
  | blockSeq
  /-- The indentation at which entries begin. -/
  | blockMap
  /-- The end of an indentation. -/
  | blockEnd
  /-- A dash before an item. -/
  | item
  /-- The beginning of a name, written or understood. -/
  | name
  /-- A colon before a value. -/
  | value
  | openSeq
  | closeSeq
  | openMap
  | closeMap
  | comma
  /-- Three dashes. -/
  | start
  /-- Three points. -/
  | finish
deriving DecidableEq

end CostQuery.Yaml

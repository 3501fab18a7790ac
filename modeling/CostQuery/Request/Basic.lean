import CostQuery.Document.Decode

/-! Requests as clients send them; nothing in them is trusted. -/

namespace CostQuery
namespace Request

structure Condition where
  key : String
  value : Json := .null
  operator : Option String := none

/-- An aggregate asked for under a name. -/
structure Field where
  operator : Option String := none
  key : Option String := none
  /-- Slot names and the columns they read, in ascending order of name. -/
  fields : Option (Members String) := none

structure Order where
  key : String
  desc : Bool := false

structure Page where
  start : Option Nat := none
  limit : Option Nat := none

/-- The list column to spread over rows, written as a text or as an object. -/
inductive Unwind where
  | text (path : String)
  | object (path : String)

def Unwind.path : Unwind → String
  | .text path => path
  | .object path => path

end Request

/-- A request of either kind; what one kind does not use is passed over. -/
structure Request where
  granularity : Option String := none
  start : Option String := none
  finish : Option String := none
  filter : List Request.Condition := []
  filterOr : List Request.Condition := []
  groupBy : List Json := []
  fields : Members Request.Field := []
  fieldGroup : List Json := []
  sort : List Request.Order := []
  page : Option Request.Page := none
  distinct : Option String := none
  select : Members Json := []
  unwind : Option Request.Unwind := none
  minimal : Bool := false
  only : List String := []
  countOnly : Bool := false

end CostQuery

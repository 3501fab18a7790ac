import CostQuery.Query.Basic
import CostQuery.Query.Fault
import CostQuery.Request.Basic

/-! Queries made from requests: what is required and bad refuses the request, what is optional and
not understood is left out. -/

namespace CostQuery

abbrev Checked := Except RequestFault

def require {α : Type} (fault : RequestFault) : Option α → Checked α
  | some a => .ok a
  | none => .error fault

def nonEmpty? (text : Option String) : Option String := text.filter fun s => !s.isEmpty

def dateBound (parameter text : String) : Checked DateBound :=
  require (.invalid parameter (.notDate text)) (DateBound.ofText? text)

def windowOf (granularity : Granularity) (limits : RangeLimits) (start finish : String) :
    Checked Window := do
  let first ← dateBound "start" start
  let last ← dateBound "end" finish
  (Window.ofBounds granularity limits first last).mapError (.window start finish)

namespace Operand

def ofFlag : Json → Except ParameterFault Operand
  | .null => .ok (.flag true)
  | .bool b => .ok (.flag b)
  | _ => .error .flagExpected

def literals : List Json → Except ParameterFault (List Literal)
  | [] => .ok []
  | v :: rest =>
    match Literal.ofJson? v with
    | some l => (literals rest).map (l :: ·)
    | none => .error .scalarItemsExpected

/-- A scalar stands for the list of it alone. -/
def ofList : Json → Except ParameterFault Operand
  | .arr items => (literals items).map .list
  | v =>
    match Literal.ofJson? v with
    | some l => .ok (.list [l])
    | none => .error .scalarListExpected

def ofRelative (v : Json) : Except ParameterFault Operand :=
  match v.asText? with
  | none => .error .relativeTextExpected
  | some text =>
    match RelativeTime.ofText? text with
    | some t => .ok (.relative t)
    | none => .error .relativeFormExpected

def ofTimestamp (v : Json) : Except ParameterFault Operand :=
  match nonEmpty? v.asText? with
  | some text => .ok (.scalar (.text text))
  | none => .error .timestampExpected

def ofScalar (v : Json) : Except ParameterFault Operand :=
  match Literal.ofJson? v with
  | some l => .ok (.scalar l)
  | none => .error .scalarExpected

/-- The shape depends on the operator. -/
def ofJson (operator : Operator) (v : Json) : Except ParameterFault Operand :=
  match operator with
  | .exists => ofFlag v
  | .in | .notIn | .containIn | .notContainIn | .regexIn => ofList v
  | .timediffGt | .timediffGte | .timediffLt | .timediffLte => ofRelative v
  | .datetimeGt | .datetimeGte | .datetimeLt | .datetimeLte => ofTimestamp v
  | .eq | .not | .lt | .lte | .gt | .gte | .regex | .contain | .notContain => ofScalar v

end Operand

namespace Condition

def ofRequest (r : Request.Condition) : Checked Condition := do
  if r.key.isEmpty then .error (.missing "filter.key")
  else
    let name := r.operator.getD "eq"
    let operator ← require (.unsupportedOperator name) (Operator.ofName? name)
    let operand ← (Operand.ofJson operator r.value).mapError (.invalid r.key)
    return ⟨r.key, operator, operand⟩

end Condition

namespace ColumnRef

/-- A key, or an object with a key and perhaps a name; anything else is left out. -/
def ofJson? : Json → Option ColumnRef
  | .str key => if key.isEmpty then none else some ⟨key, key⟩
  | .obj members => do
    let key ← nonEmpty? ((Members.get? members "key").bind Json.asText?)
    return ⟨key, ((Members.get? members "name").bind Json.asText?).getD key⟩
  | _ => none

end ColumnRef

namespace FieldSpec

/-- Counts need no column; pushes need slots. -/
def ofRequest (name : String) (r : Request.Field) : Checked FieldSpec := do
  let parameter (part : String) : String := "fields." ++ name ++ "." ++ part
  let operator ← require (.missing (parameter "operator")) r.operator
  let aggregate ← require (.unsupportedOperator operator) (Aggregate.ofName? operator)
  let key := nonEmpty? r.key
  let slots := r.fields.getD []
  if aggregate ≠ .count ∧ key.isNone then .error (.missing (parameter "key"))
  else if aggregate = .push ∧ slots.isEmpty then .error (.missing (parameter "fields"))
  else return ⟨name, aggregate, if aggregate = .count then none else key, slots⟩

end FieldSpec

namespace SortKey

def ofRequest (r : Request.Order) : Checked SortKey :=
  if r.key.isEmpty then .error (.invalid "sort" .emptySortKey) else .ok ⟨r.key, r.desc⟩

end SortKey

namespace Page

/-- Without a limit there is no page. The rows up to the page, and one more, stay below `2 ^ 63`. -/
def ofRequest (r : Option Request.Page) : Checked (Option Page) :=
  match r.bind fun p => (p.limit.filter (0 < ·)).map fun limit => (p.start, limit) with
  | none => .ok none
  | some (start, limit) =>
    let start := max (start.getD 1) 1
    if (start - 1) * limit + limit + 1 < Nat.pow 2 63 then .ok (some ⟨start, limit⟩)
    else .error (.invalid "page" (.pageOutOfRange start limit))

end Page

/-- The path to unwind, which is not empty. -/
def unwindPath (r : Request) : Checked (Option String) :=
  match r.unwind with
  | none => .ok none
  | some u =>
    if u.path.isEmpty then .error (.invalid "unwind" .emptyPath) else .ok (some u.path)

/-- Definitions that are not understood are left out. -/
def selected (r : Request) : List (String × SelectExpr) :=
  r.select.filterMap fun (name, definition) => (SelectExpr.ofJson? definition).map (name, ·)

def isReserved (key : String) : Bool := totalMark.toList.isPrefixOf key.toList

namespace AnalyzeQuery

def ofRequest (limits : RangeLimits) (r : Request) : Checked AnalyzeQuery := do
  let name ← require (.missing "granularity") r.granularity
  let granularity ← require (.invalid "granularity" (.unknownGranularity name))
    (Granularity.ofName? name)
  let start ← require (.missing "start") (nonEmpty? r.start)
  let finish ← require (.missing "end") (nonEmpty? r.finish)
  let window ← windowOf granularity limits start finish
  let fields ← r.fields.mapM fun (name, field) => FieldSpec.ofRequest name field
  let groupBy := r.groupBy.filterMap ColumnRef.ofJson?
  let fieldGroup := r.fieldGroup.filterMap ColumnRef.ofJson?
  match fieldGroup.find? fun c => isReserved c.key with
  | some c => .error (.invalid "field_group" (.reservedName c.key))
  | none =>
    let filter ← r.filter.mapM Condition.ofRequest
    let filterOr ← r.filterOr.mapM Condition.ofRequest
    let sort ← r.sort.mapM SortKey.ofRequest
    let page ← Page.ofRequest r.page
    let unwind ← unwindPath r
    return { granularity, window, filter, filterOr, groupBy, fields, fieldGroup,
             select := selected r, sort, page, unwind }

end AnalyzeQuery

namespace SearchQuery

def ofRequest (r : Request) : Checked SearchQuery := do
  if r.distinct = some "" then .error (.invalid "distinct" .emptyColumnKey)
  else
    let filter ← r.filter.mapM Condition.ofRequest
    let filterOr ← r.filterOr.mapM Condition.ofRequest
    let sort ← r.sort.mapM SortKey.ofRequest
    let page ← Page.ofRequest r.page
    let unwind ← unwindPath r
    return { filter, filterOr, sort, page, distinct := r.distinct, select := selected r, unwind,
             minimal := r.minimal, only := r.only.filter fun k => !k.isEmpty,
             countOnly := r.countOnly }

end SearchQuery
end CostQuery

import CostQuery.Proofs.Json.Number
import CostQuery.Proofs.Query.Checked
import CostQuery.Proofs.Query.Text

/-! Cache keys do not confuse queries: what is digested for a query that passed the checks is
digested for no other. -/

namespace CostQuery

/-! Requests as exchange text can hold them. -/

inductive Json.IsValid : Json → Prop
  | null : IsValid .null
  | bool (value : Bool) : IsValid (.bool value)
  | num {value : Number} (valid : value.IsValid) : IsValid (.num value)
  | str (value : String) : IsValid (.str value)
  | arr {items : List Json} (valid : ∀ v ∈ items, IsValid v) : IsValid (.arr items)
  | obj {members : List (String × Json)} (valid : ∀ m ∈ members, IsValid m.2) :
      IsValid (.obj members)

/-- The values that literals are read from can stand in exchange text. -/
structure Request.IsValid (r : Request) : Prop where
  filter : ∀ c ∈ r.filter, c.value.IsValid
  filterOr : ∀ c ∈ r.filterOr, c.value.IsValid
  select : ∀ s ∈ r.select, s.2.IsValid

/-! Their literals can be written. -/

theorem Literal.written_of_ofJson {v : Json} {l : Literal} (hv : v.IsValid)
    (h : ofJson? v = some l) : l.Written := by
  cases hv with
  | null | bool | str =>
    obtain rfl := Option.some.inj h
    trivial
  | @num value hvalid =>
    cases value with
    | int n =>
      obtain rfl := Option.some.inj h
      split
      · trivial
      · next hlarge => exact Number.isFinite_ofInt hvalid (Bool.eq_false_iff.mpr hlarge)
    | float x =>
      obtain rfl := Option.some.inj h
      exact hvalid
  | arr | obj => cases h

namespace Operand
variable {v : Json} {operand : Operand}

theorem written_of_literals {items : List Json} {ls : List Literal}
    (hv : ∀ v ∈ items, v.IsValid) (h : literals items = .ok ls) : ∀ l ∈ ls, l.Written := by
  induction items generalizing ls with
  | nil =>
    obtain rfl := Except.ok.inj h
    exact fun _ hl => absurd hl List.not_mem_nil
  | cons v rest ih =>
    obtain ⟨hhead, htail⟩ := List.forall_mem_cons.mp hv
    rw [literals] at h
    split at h
    · next l hl =>
      obtain ⟨ls', hls', rfl⟩ := map_ok.mp h
      exact List.forall_mem_cons.mpr ⟨Literal.written_of_ofJson hhead hl, ih htail hls'⟩
    · cases h

theorem written_of_ofList (hv : v.IsValid) (h : ofList v = .ok operand) : operand.Written := by
  unfold ofList at h
  split at h
  · obtain ⟨ls, hls, rfl⟩ := map_ok.mp h
    cases hv with
    | arr hitems => exact written_of_literals hitems hls
  · split at h
    · next l hl =>
      obtain rfl := Except.ok.inj h
      exact List.forall_mem_singleton.mpr (Literal.written_of_ofJson hv hl)
    · cases h

theorem written_of_ofScalar (hv : v.IsValid) (h : ofScalar v = .ok operand) :
    operand.Written := by
  rw [ofScalar] at h
  split at h
  · next l hl =>
    obtain rfl := Except.ok.inj h
    exact Literal.written_of_ofJson hv hl
  · cases h

theorem written_of_ofJson {operator : Operator} (hv : v.IsValid)
    (h : ofJson operator v = .ok operand) : operand.Written := by
  have htakes := takes_of_ofJson h
  cases operator with
  | eq | not | lt | lte | gt | gte | regex | contain | notContain => exact written_of_ofScalar hv h
  | «in» | notIn | containIn | notContainIn | regexIn => exact written_of_ofList hv h
  | «exists» | datetimeGt | datetimeGte | datetimeLt | datetimeLte | timediffGt | timediffGte
  | timediffLt | timediffLte =>
    -- Flags, times and moments have no number.
    unfold Operator.Takes at htakes
    split at htakes <;> trivial

end Operand

theorem Condition.written_of_ofRequest {r : Request.Condition} {c : Condition}
    (hr : r.value.IsValid) (h : ofRequest r = .ok c) : c.Written where
  takes := takes_of_ofRequest h
  operand := Operand.written_of_ofJson hr (operand_of_ofRequest h)

theorem conditions_written {rs : List Request.Condition} {cs : List Condition}
    (hrs : ∀ r ∈ rs, r.value.IsValid) (h : rs.mapM Condition.ofRequest = .ok cs) :
    ∀ c ∈ cs, c.Written := by
  intro c hc
  obtain ⟨r, hr, hread⟩ := exists_of_forall₂ (mapM_ok h).flip hc
  exact Condition.written_of_ofRequest (hrs r hr) hread

theorem SelectExpr.common_written : Common Json.IsValid Written where
  items h := by
    cases h with
    | arr hitems => exact hitems
  members h := by
    cases h with
    | obj hmembers => exact hmembers
  field := .field
  size := .size
  literal hv hl := .literal (Literal.written_of_ofJson hv hl)
  arithmetic op _ _ hes := .arithmetic op hes

theorem legible_of_givenBy {r : Request} {filter filterOr : List Condition}
    {select : List (String × SelectExpr)} (hr : r.IsValid) (h : GivenBy r filter filterOr select) :
    Legible filter filterOr select where
  filter := conditions_written hr.filter h.filter
  filterOr := conditions_written hr.filterOr h.filterOr
  select _ hs := SelectExpr.common_written.of_selected hr.select (h.select ▸ hs)

theorem Json.text_cancel {kind : String} {v v' : Json} (h : kind ++ v.text = kind ++ v'.text) :
    v = v' := by
  have hchars := congrArg String.toList h
  rw [String.toList_append, String.toList_append] at hchars
  exact text_injective (String.toList_inj.mp (List.append_cancel_left hchars))

/-! Queries of both kinds. -/

inductive Query where
  | analyze (query : AnalyzeQuery)
  | search (query : SearchQuery)

namespace Query
variable {a b : Query}

def cacheText : Query → String
  | .analyze q => q.cacheText
  | .search q => q.cacheText

/-- The bytes that are digested for the cache key. -/
def hashed (q : Query) : ByteArray := q.cacheText.toUTF8

def cacheKey : Query → String
  | .analyze q => q.cacheKey
  | .search q => q.cacheKey

theorem cacheKey_eq (q : Query) :
    q.cacheKey = String.ofList (Digest.hexChars (Digest.ofBytes q.hashed.toList)) := by
  cases q <;> rfl

/-- The checks make the query of the request. -/
def Checks (limits : RangeLimits) (r : Request) : Query → Prop
  | .analyze q => AnalyzeQuery.ofRequest limits r = .ok q
  | .search q => SearchQuery.ofRequest r = .ok q

def IsAccepted (q : Query) : Prop := ∃ limits r, Request.IsValid r ∧ q.Checks limits r

theorem analyze_cacheText_ne (q : AnalyzeQuery) (q' : SearchQuery) :
    q.cacheText ≠ q'.cacheText := by
  intro h
  have hchars := congrArg String.toList h
  rw [AnalyzeQuery.cacheText, SearchQuery.cacheText, String.toList_append,
    String.toList_append] at hchars
  cases hchars

/-- The kinds of queries begin differently, and the exchange form tells the queries of one kind. -/
theorem cacheText_inj (ha : a.IsAccepted) (hb : b.IsAccepted) (h : a.cacheText = b.cacheText) :
    a = b := by
  obtain ⟨limits, r, hr, ha⟩ := ha
  obtain ⟨limits', r', hr', hb⟩ := hb
  cases a with
  | analyze q =>
    cases b with
    | analyze q' =>
      have hq := legible_of_givenBy hr (AnalyzeQuery.of_ofRequest ha).2
      have hq' := legible_of_givenBy hr' (AnalyzeQuery.of_ofRequest hb).2
      rw [AnalyzeQuery.toJson_inj hq hq' (Json.text_cancel h)]
    | search q' => exact absurd h (analyze_cacheText_ne q q')
  | search q =>
    cases b with
    | analyze q' => exact absurd h.symm (analyze_cacheText_ne q' q)
    | search q' =>
      have hq := legible_of_givenBy hr (SearchQuery.of_ofRequest ha)
      have hq' := legible_of_givenBy hr' (SearchQuery.of_ofRequest hb)
      rw [SearchQuery.toJson_inj hq hq' (Json.text_cancel h)]

/-- The bytes digested for two queries are the same only where the queries are. -/
theorem hashed_inj (ha : a.IsAccepted) (hb : b.IsAccepted) : a.hashed = b.hashed ↔ a = b := by
  constructor
  · intro h
    exact cacheText_inj ha hb (String.toByteArray_inj.mp h)
  · rintro rfl
    rfl

/-- One search asks whether there is a cost, another whether it is true. -/
def flagRequest (operator : String) : Request :=
  { filter := [{ key := "cost", value := .bool true, operator := some operator }] }

def flagQuery (operator : Operator) (operand : Operand) : SearchQuery where
  filter := [⟨"cost", operator, operand⟩]
  filterOr := []
  sort := []
  page := none
  distinct := none
  select := []
  unwind := none
  minimal := false
  only := []
  countOnly := false

/-- Both operands are written `true`, but the bytes differ. -/
theorem hashed_inj_flags :
    (search (flagQuery .exists (.flag true))).IsAccepted ∧
      (search (flagQuery .eq (.scalar (.bool true)))).IsAccepted ∧
      (Operand.flag true).toJson = (Operand.scalar (.bool true)).toJson ∧
      (search (flagQuery .exists (.flag true))).hashed ≠
        (search (flagQuery .eq (.scalar (.bool true)))).hashed := by
  have hvalid : ∀ operator, (flagRequest operator).IsValid := fun operator =>
    { filter := List.forall_mem_singleton.mpr (.bool true)
      filterOr := nofun
      select := nofun }
  have hexists : (search (flagQuery .exists (.flag true))).IsAccepted :=
    ⟨{}, flagRequest "exists", hvalid _, rfl⟩
  have heq : (search (flagQuery .eq (.scalar (.bool true)))).IsAccepted :=
    ⟨{}, flagRequest "eq", hvalid _, rfl⟩
  refine ⟨hexists, heq, rfl, fun h => ?_⟩
  have hsame := (hashed_inj hexists heq).mp h
  simp [flagQuery] at hsame

end Query
end CostQuery

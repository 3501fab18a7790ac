import CostQuery.Plan.Computed
import CostQuery.Proofs.Members
import CostQuery.Proofs.Outcome
import CostQuery.Query.Validate

/-! What is so of every query that passed the checks: its arithmetic has operands, and its fields
have columns unless they count. -/

namespace CostQuery

namespace Computed

/-- No arithmetic in it is without operands. -/
inductive Filled : Computed → Prop
  | column (c : Column) : Filled (.column c)
  | literal (value : Literal) : Filled (.literal value)
  | size (c : Column) : Filled (.size c)
  | arithmetic (op : Arithmetic) {operands : List Computed} (nonempty : operands ≠ [])
      (filled : ∀ e ∈ operands, Filled e) : Filled (.arithmetic op operands)

end Computed

theorem computedOperands_eq (es : List SelectExpr) :
    computedOperands es = es.map Computed.ofSelect := by
  induction es with
  | nil => rfl
  | cons e rest ih => rw [computedOperands, ih, List.map_cons]

namespace SelectExpr

def Filled (e : SelectExpr) : Prop := (Computed.ofSelect e).Filled

theorem filled_arithmetic (op : Arithmetic) {operands : List SelectExpr} (hne : operands ≠ [])
    (h : ∀ e ∈ operands, e.Filled) : (arithmetic op operands).Filled := by
  rw [Filled, Computed.ofSelect, computedOperands_eq]
  exact .arithmetic op (by simpa using hne) (List.forall_mem_map.mpr h)

/-- What definitions read from values of one kind have in common: leaves have it, and arithmetic
whose operands have it. -/
structure Common (Q : Json → Prop) (P : SelectExpr → Prop) : Prop where
  items {items : List Json} : Q (.arr items) → ∀ v ∈ items, Q v
  members {members : List (String × Json)} : Q (.obj members) → ∀ m ∈ members, Q m.2
  field (key : String) : P (.field key)
  size (key : String) : P (.size key)
  literal {v : Json} {l : Literal} : Q v → Literal.ofJson? v = some l → P (.literal l)
  arithmetic (op : Arithmetic) {operands : List SelectExpr} :
    operands ≠ [] → (∀ e ∈ operands, P e) → P (.arithmetic op operands)

namespace Common
variable {Q : Json → Prop} {P : SelectExpr → Prop}

theorem of_ofOperator (c : Common Q P) {operator : String} {members : Members Json}
    {operands : Option (List SelectExpr)} (h : ∀ es ∈ operands, ∀ e ∈ es, P e) :
    ∀ e ∈ ofOperator? operator members operands, P e := by
  intro e he
  rw [ofOperator?] at he
  split at he
  · rw [sizeOfKey?] at he
    split at he
    · split at he
      · cases he
      · obtain rfl := Option.some.inj he
        exact c.size _
    · cases he
  · simp only [Option.bind_eq_bind, Option.mem_def, Option.bind_eq_some_iff] at he
    obtain ⟨op, -, es, hes, he⟩ := he
    split at he
    · cases he
    · next hlength =>
      obtain rfl := Option.some.inj he
      refine c.arithmetic op (fun hnil => hlength ?_) (h es hes)
      rw [hnil]
      decide

mutual

theorem of_ofJson (c : Common Q P) : (v : Json) → Q v → ∀ e ∈ ofJson? v, P e
  | .str key, _, e, he => by
    rw [ofJson?] at he
    split at he
    · cases he
    · obtain rfl := Option.some.inj he
      exact c.field key
  | .num n, hv, e, he => by
    obtain ⟨l, hl, rfl⟩ := Option.map_eq_some_iff.mp he
    exact c.literal hv hl
  | .bool b, hv, e, he => by
    obtain rfl := Option.some.inj he
    exact c.literal hv rfl
  | .obj members, hv, e, he => by
    have hmembers := c.members hv
    rw [ofJson?] at he
    split at he
    · next value hvalue =>
      obtain ⟨l, hl, rfl⟩ := Option.map_eq_some_iff.mp he
      exact c.literal (hmembers _ (Members.mem_of_get? hvalue)) hl
    · simp only [Option.bind_eq_bind, Option.mem_def, Option.bind_eq_some_iff] at he
      obtain ⟨operator, -, he⟩ := he
      exact c.of_ofOperator (of_operandsOfMembers c members hmembers) e he
  | .null, _, e, he | .arr _, _, e, he => nomatch he

theorem of_operandsOfMembers (c : Common Q P) : (members : List (String × Json)) →
    (∀ m ∈ members, Q m.2) → ∀ es ∈ operandsOfMembers? members, ∀ e ∈ es, P e
  | [], _, es, hes => nomatch hes
  | (k, v) :: rest, h, es, hes => by
    obtain ⟨hv, hrest⟩ := List.forall_mem_cons.mp h
    rw [operandsOfMembers?] at hes
    split at hes
    · exact of_operandsOf c v hv es hes
    · exact of_operandsOfMembers c rest hrest es hes

theorem of_operandsOf (c : Common Q P) : (v : Json) → Q v → ∀ es ∈ operandsOf? v, ∀ e ∈ es, P e
  | .arr items, hv, es, hes => of_ofItems c items (c.items hv) es hes
  | .null, _, _, hes | .bool _, _, _, hes | .num _, _, _, hes | .str _, _, _, hes
  | .obj _, _, _, hes => nomatch hes

theorem of_ofItems (c : Common Q P) : (items : List Json) → (∀ v ∈ items, Q v) →
    ∀ es ∈ ofItems? items, ∀ e ∈ es, P e
  | [], _, es, hes => by
    obtain rfl := Option.some.inj hes
    exact fun _ he => absurd he List.not_mem_nil
  | v :: rest, h, es, hes => by
    obtain ⟨hv, hrest⟩ := List.forall_mem_cons.mp h
    simp only [ofItems?, Option.bind_eq_bind, Option.mem_def, Option.bind_eq_some_iff,
      Option.pure_def, Option.some.injEq] at hes
    obtain ⟨e, he, es', hes', rfl⟩ := hes
    exact List.forall_mem_cons.mpr ⟨of_ofJson c v hv e he, of_ofItems c rest hrest es' hes'⟩

end

theorem of_selected (c : Common Q P) {r : Request} (hr : ∀ s ∈ r.select, Q s.2)
    {s : String × SelectExpr} (h : s ∈ selected r) : P s.2 := by
  obtain ⟨⟨name, definition⟩, hmem, hs⟩ := List.mem_filterMap.mp h
  obtain ⟨e, he, rfl⟩ := Option.map_eq_some_iff.mp hs
  exact c.of_ofJson definition (hr _ hmem) e he

end Common

/-- Definitions are read as computed columns whose arithmetic has operands, at any depth. -/
theorem common_filled : Common (fun _ => True) Filled where
  items _ _ _ := trivial
  members _ _ _ := trivial
  field _ := .column _
  size _ := .size _
  literal _ _ := .literal _
  arithmetic op _ := filled_arithmetic op

theorem filled_of_selected {r : Request} {s : String × SelectExpr} (h : s ∈ selected r) :
    s.2.Filled :=
  common_filled.of_selected (fun _ _ => trivial) h

end SelectExpr

theorem FieldSpec.key_of_ofRequest {name : String} {r : Request.Field} {f : FieldSpec}
    (h : ofRequest name r = .ok f) (hf : f.aggregate ≠ .count) : f.key ≠ none := by
  simp only [ofRequest, bind_ok] at h
  obtain ⟨operator, -, aggregate, -, h⟩ := h
  split at h
  · cases h
  · next hkey =>
    split at h
    · cases h
    · obtain rfl := pure_ok.mp h
      simp only at hf
      simp only [if_neg hf]
      exact fun hnone => hkey ⟨hf, by rw [hnone]; rfl⟩

/-- The conditions and the computed columns are those of the request. -/
structure GivenBy (r : Request) (filter filterOr : List Condition)
    (select : List (String × SelectExpr)) : Prop where
  filter : r.filter.mapM Condition.ofRequest = .ok filter
  filterOr : r.filterOr.mapM Condition.ofRequest = .ok filterOr
  select : select = selected r

theorem AnalyzeQuery.of_ofRequest {limits : RangeLimits} {r : Request} {q : AnalyzeQuery}
    (h : ofRequest limits r = .ok q) :
    List.Forall₂ (fun named f => FieldSpec.ofRequest named.1 named.2 = .ok f) r.fields q.fields ∧
      GivenBy r q.filter q.filterOr q.select := by
  simp only [ofRequest, bind_ok] at h
  obtain ⟨name, -, granularity, -, start, -, finish, -, window, -, fields, hfields, h⟩ := h
  split at h
  · cases h
  · simp only [bind_ok, pure_ok] at h
    obtain ⟨filter, hfilter, filterOr, hfilterOr, sort, -, page, -, unwind, -, rfl⟩ := h
    exact ⟨mapM_ok hfields, hfilter, hfilterOr, rfl⟩

theorem SearchQuery.of_ofRequest {r : Request} {q : SearchQuery} (h : ofRequest r = .ok q) :
    GivenBy r q.filter q.filterOr q.select := by
  rw [ofRequest] at h
  split at h
  · cases h
  · simp only [bind_ok, pure_ok] at h
    obtain ⟨filter, hfilter, filterOr, hfilterOr, sort, -, page, -, unwind, -, rfl⟩ := h
    exact ⟨hfilter, hfilterOr, rfl⟩

theorem AnalyzeQuery.key_of_ofRequest {limits : RangeLimits} {r : Request} {q : AnalyzeQuery}
    (h : ofRequest limits r = .ok q) {f : FieldSpec} (hf : f ∈ q.fields)
    (hcount : f.aggregate ≠ .count) : f.key ≠ none := by
  obtain ⟨⟨name, field⟩, -, hfield⟩ := exists_of_forall₂ (of_ofRequest h).1.flip hf
  exact FieldSpec.key_of_ofRequest hfield hcount

theorem AnalyzeQuery.filled_of_ofRequest {limits : RangeLimits} {r : Request} {q : AnalyzeQuery}
    (h : ofRequest limits r = .ok q) {s : String × SelectExpr} (hs : s ∈ q.select) :
    s.2.Filled :=
  SelectExpr.filled_of_selected ((of_ofRequest h).2.select ▸ hs)

theorem SearchQuery.filled_of_ofRequest {r : Request} {q : SearchQuery} (h : ofRequest r = .ok q)
    {s : String × SelectExpr} (hs : s ∈ q.select) : s.2.Filled :=
  SelectExpr.filled_of_selected ((of_ofRequest h).select ▸ hs)

end CostQuery

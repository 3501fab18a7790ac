import CostQuery.Proofs.Calendar.Text
import CostQuery.Proofs.Filter.Conditions
import CostQuery.Proofs.Json.Text
import CostQuery.Query.CacheKey
import Mathlib.Data.Set.Function

/-! The exchange form of a query tells it from all other queries that passed the checks. Values are
written without their types, so that a form alone does not tell a flag from a scalar: the operator
before it does. -/

namespace CostQuery

theorem Json.ofOption_injective {α : Type} {f : α → Json} (hf : Function.Injective f)
    (hnull : ∀ a, f a ≠ .null) : Function.Injective (ofOption f) := by
  intro a b h
  cases a with
  | none =>
    cases b with
    | none => rfl
    | some b => exact absurd h.symm (hnull b)
  | some a =>
    cases b with
    | none => exact absurd h (hnull a)
    | some b => exact congrArg some (hf h)

theorem Json.text_option_injective : Function.Injective (ofOption str) :=
  ofOption_injective (fun _ _ => str.inj) nofun

theorem Json.arr_map_injective {α : Type} {f : α → Json} (hf : Function.Injective f) :
    Function.Injective fun as : List α => arr (as.map f) := by
  intro as as' h
  exact List.map_injective_iff.mpr hf (arr.inj h)

/-- Two texts in a list. -/
theorem Json.pair_injective : Function.Injective fun p : String × String =>
    arr [.str p.1, .str p.2] := by
  rintro ⟨a, b⟩ ⟨a', b'⟩ h
  simp only [arr.injEq, List.cons.injEq, str.injEq, and_true] at h
  obtain ⟨rfl, rfl⟩ := h
  rfl

/-! Names. -/

theorem injective_of_read {α : Type} {name : α → String} (read? : String → Option α)
    (h : ∀ a, read? (name a) = some a) : Function.Injective name := by
  intro a b hname
  exact Option.some.inj ((h a).symm.trans (hname ▸ h b))

theorem Operator.name_injective : Function.Injective name :=
  injective_of_read ofName? fun op => by cases op <;> rfl

theorem Aggregate.name_injective : Function.Injective name :=
  injective_of_read ofName? fun a => by cases a <;> rfl

theorem Arithmetic.name_injective : Function.Injective name :=
  injective_of_read ofName? fun op => by cases op <;> rfl

theorem Granularity.name_injective : Function.Injective name :=
  injective_of_read ofName? fun g => by cases g <;> rfl

theorem TimeUnit.name_injective : Function.Injective name :=
  injective_of_read ofName? fun u => by cases u <;> rfl

/-! Parts without literals. -/

theorem RelativeTime.toJson_injective : Function.Injective toJson := by
  have hoffset : Function.Injective fun o : Int × TimeUnit =>
      Json.arr [.int o.1, .str o.2.name] := by
    rintro ⟨amount, unit⟩ ⟨amount', unit'⟩ h
    simp only [Json.int, Json.arr.injEq, List.cons.injEq, Json.num.injEq, Number.int.injEq,
      Json.str.injEq, and_true] at h
    obtain ⟨rfl, hunit⟩ := h
    obtain rfl := TimeUnit.name_injective hunit
    rfl
  rintro ⟨dayStart, offset⟩ ⟨dayStart', offset'⟩ h
  simp only [toJson, Json.obj.injEq, List.cons.injEq, Prod.mk.injEq, Json.bool.injEq, true_and,
    and_true] at h
  obtain ⟨rfl, hsame⟩ := h
  obtain rfl := Json.ofOption_injective hoffset nofun hsame
  rfl

theorem ColumnRef.toJson_injective : Function.Injective toJson := by
  rintro ⟨key, name⟩ ⟨key', name'⟩ h
  simp only [toJson, Json.obj.injEq, List.cons.injEq, Prod.mk.injEq, Json.str.injEq, true_and,
    and_true] at h
  obtain ⟨rfl, rfl⟩ := h
  rfl

theorem FieldSpec.toJson_injective : Function.Injective toJson := by
  rintro ⟨name, aggregate, key, slots⟩ ⟨name', aggregate', key', slots'⟩ h
  simp only [toJson, Json.obj.injEq, List.cons.injEq, Prod.mk.injEq, Json.str.injEq, true_and,
    and_true] at h
  obtain ⟨rfl, haggregate, hkey, hslots⟩ := h
  obtain rfl := Aggregate.name_injective haggregate
  obtain rfl := Json.text_option_injective hkey
  obtain rfl := Json.arr_map_injective Json.pair_injective hslots
  rfl

theorem SortKey.toJson_injective : Function.Injective toJson := by
  rintro ⟨key, desc⟩ ⟨key', desc'⟩ h
  simp only [toJson, Json.obj.injEq, List.cons.injEq, Prod.mk.injEq, Json.str.injEq,
    Json.bool.injEq, true_and, and_true] at h
  obtain ⟨rfl, rfl⟩ := h
  rfl

theorem Page.toJson_injective : Function.Injective toJson := by
  rintro ⟨start, limit⟩ ⟨start', limit'⟩ h
  simp only [toJson, Json.int, Json.obj.injEq, List.cons.injEq, Prod.mk.injEq, Json.num.injEq,
    Number.int.injEq, Int.natCast_inj, true_and, and_true] at h
  obtain ⟨rfl, rfl⟩ := h
  rfl

theorem Window.toJson_injective : Function.Injective toJson := by
  rintro ⟨start, finish⟩ ⟨start', finish'⟩ h
  simp only [toJson, Json.obj.injEq, List.cons.injEq, Prod.mk.injEq, Json.str.injEq, true_and,
    and_true] at h
  obtain ⟨hstart, hfinish⟩ := h
  obtain rfl := Date.text_injective hstart
  obtain rfl := Date.text_injective hfinish
  rfl

/-! Literals. -/

/-- A float without a value among the numbers would be written as null. -/
def Literal.Written : Literal → Prop
  | .float x => x.isFinite = true
  | _ => True

theorem Literal.toJson_inj {l l' : Literal} (hl : l.Written) (hl' : l'.Written)
    (h : l.toJson = l'.toJson) : l = l' := by
  have hfloat : ∀ x, (float x).Written → (float x).toJson = .num (.float x) :=
    fun x hx => if_pos hx
  cases l with
  | float x =>
    rw [hfloat x hl] at h
    cases l' with
    | float x' =>
      rw [hfloat x' hl'] at h
      cases h
      rfl
    | null | bool | int | text => cases h
  | null | bool | int | text =>
    cases l' with
    | float x' =>
      rw [hfloat x' hl'] at h
      cases h
    | null | bool | int | text =>
      cases h
      try rfl

/-- Literals are neither lists nor objects. -/
theorem Literal.toJson_cases (l : Literal) : (∀ items, l.toJson ≠ .arr items) ∧
    ∀ members, l.toJson ≠ .obj members := by
  cases l with
  | float x =>
    rw [toJson, Json.ofFloat]
    split <;> simp
  | null | bool | int | text => simp [toJson, Json.int]

theorem eq_of_map_eq {α β : Type} {f : α → β} {P : α → Prop} {as as' : List α}
    (hf : ∀ a ∈ as, ∀ a', P a' → f a = f a' → a = a') (hP : ∀ a ∈ as', P a)
    (h : as.map f = as'.map f) : as = as' := by
  induction as generalizing as' with
  | nil => exact (List.map_eq_nil_iff.mp h.symm).symm
  | cons a as ih =>
    cases as' with
    | nil => cases h
    | cons a' as' =>
      obtain ⟨ha, has⟩ := List.forall_mem_cons.mp hf
      obtain ⟨hP', hPs⟩ := List.forall_mem_cons.mp hP
      obtain ⟨hhead, htail⟩ := List.cons.inj h
      rw [ha a' hP' hhead, ih has hPs htail]

/-! Conditions. -/

def Operand.Written : Operand → Prop
  | .scalar l => l.Written
  | .list ls => ∀ l ∈ ls, l.Written
  | .flag _ | .relative _ => True

theorem Operator.not_takes_both {op : Operator} {l : Literal} {b : Bool}
    (hl : op.Takes (.scalar l)) : ¬ op.Takes (.flag b) := by
  intro hb
  cases op <;> first | exact hb | exact hl

/-- A flag and a scalar may be written alike, but no operator takes both. -/
theorem Operand.toJson_inj {op : Operator} {a a' : Operand} (ha : op.Takes a) (ha' : op.Takes a')
    (hw : a.Written) (hw' : a'.Written) (h : a.toJson = a'.toJson) : a = a' := by
  cases a with
  | scalar l =>
    cases a' with
    | scalar l' => exact congrArg scalar (Literal.toJson_inj hw hw' h)
    | list ls' => exact absurd h (l.toJson_cases.1 _)
    | flag b' => exact absurd ha' (Operator.not_takes_both ha)
    | relative t' => exact absurd h (l.toJson_cases.2 _)
  | list ls =>
    cases a' with
    | scalar l' => exact absurd h.symm (l'.toJson_cases.1 _)
    | list ls' =>
      have hsame := eq_of_map_eq (fun l hl l' hl' => Literal.toJson_inj (hw l hl) hl') hw'
        (Json.arr.inj h)
      rw [hsame]
    | flag b' => cases h
    | relative t' => cases h
  | flag b =>
    cases a' with
    | scalar l' => exact absurd ha (Operator.not_takes_both ha')
    | list ls' => cases h
    | flag b' => exact congrArg flag (Json.bool.inj h)
    | relative t' => cases h
  | relative t =>
    cases a' with
    | scalar l' => exact absurd h.symm (l'.toJson_cases.2 _)
    | list ls' => cases h
    | flag b' => cases h
    | relative t' => exact congrArg relative (RelativeTime.toJson_injective h)

/-- The operand fits the operator and can be written. -/
structure Condition.Written (c : Condition) : Prop where
  takes : c.operator.Takes c.operand
  operand : c.operand.Written

theorem Condition.toJson_inj {c c' : Condition} (hc : c.Written) (hc' : c'.Written)
    (h : c.toJson = c'.toJson) : c = c' := by
  obtain ⟨key, operator, operand⟩ := c
  obtain ⟨key', operator', operand'⟩ := c'
  simp only [toJson, Json.obj.injEq, List.cons.injEq, Prod.mk.injEq, Json.str.injEq, true_and,
    and_true] at h
  obtain ⟨rfl, hname, hoperand⟩ := h
  obtain rfl := Operator.name_injective hname
  obtain rfl : operand = operand' :=
    Operand.toJson_inj hc.takes hc'.takes hc.operand hc'.operand hoperand
  rfl

theorem conditions_inj {cs cs' : List Condition} (hcs : ∀ c ∈ cs, c.Written)
    (hcs' : ∀ c ∈ cs', c.Written)
    (h : Json.arr (cs.map Condition.toJson) = .arr (cs'.map Condition.toJson)) : cs = cs' :=
  eq_of_map_eq (fun c hc _ hc' => Condition.toJson_inj (hcs c hc) hc') hcs' (Json.arr.inj h)

/-! Computed columns. -/

inductive SelectExpr.Written : SelectExpr → Prop
  | field (key : String) : Written (.field key)
  | literal {value : Literal} (written : value.Written) : Written (.literal value)
  | arithmetic (op : Arithmetic) {operands : List SelectExpr}
      (written : ∀ e ∈ operands, Written e) : Written (.arithmetic op operands)
  | size (key : String) : Written (.size key)

theorem operandsToJson_eq (es : List SelectExpr) :
    operandsToJson es = es.map SelectExpr.toJson := by
  induction es with
  | nil => rfl
  | cons e rest ih => rw [operandsToJson, ih, List.map_cons]

theorem SelectExpr.toJson_inj {e e' : SelectExpr} (he : e.Written) (he' : e'.Written)
    (h : e.toJson = e'.toJson) : e = e' := by
  induction he generalizing e' with
  | field key =>
    cases he' <;> simp [toJson] at h
    rw [h]
  | literal hv =>
    cases he' with
    | literal hv' =>
      simp only [toJson, Json.obj.injEq, List.cons.injEq, Prod.mk.injEq, true_and, and_true] at h
      rw [Literal.toJson_inj hv hv' h]
    | field | arithmetic | size => simp [toJson] at h
  | arithmetic op hes ih =>
    cases he' with
    | arithmetic op' hes' =>
      simp only [toJson, operandsToJson_eq, Json.obj.injEq, List.cons.injEq, Prod.mk.injEq,
        Json.str.injEq, Json.arr.injEq, true_and, and_true] at h
      obtain ⟨hop, hoperands⟩ := h
      obtain rfl := Arithmetic.name_injective hop
      rw [eq_of_map_eq (fun e he e' he' => ih e he he') hes' hoperands]
    | field | literal | size => simp [toJson] at h
  | size key =>
    cases he' <;> simp [toJson] at h
    rw [h]

theorem select_inj {select select' : List (String × SelectExpr)}
    (hs : ∀ s ∈ select, s.2.Written) (hs' : ∀ s ∈ select', s.2.Written)
    (h : selectToJson select = selectToJson select') : select = select' := by
  refine eq_of_map_eq (fun s hmem s' hw' hsame => ?_) hs' (Json.arr.inj h)
  simp only [Json.arr.injEq, List.cons.injEq, Json.str.injEq, and_true] at hsame
  exact Prod.ext hsame.1 (SelectExpr.toJson_inj (hs s hmem) hw' hsame.2)

/-! Queries. -/

/-- The parts of a query that have literals can be written. -/
structure Legible (filter filterOr : List Condition) (select : List (String × SelectExpr)) :
    Prop where
  filter : ∀ c ∈ filter, c.Written
  filterOr : ∀ c ∈ filterOr, c.Written
  select : ∀ s ∈ select, s.2.Written

theorem AnalyzeQuery.toJson_inj {q q' : AnalyzeQuery}
    (hq : Legible q.filter q.filterOr q.select) (hq' : Legible q'.filter q'.filterOr q'.select)
    (h : q.toJson = q'.toJson) : q = q' := by
  cases q
  cases q'
  simp only [toJson, Json.obj.injEq, List.cons.injEq, Prod.mk.injEq, Json.str.injEq, true_and,
    and_true] at h
  obtain ⟨hgranularity, hwindow, hfilter, hfilterOr, hgroupBy, hfields, hfieldGroup, hselect,
    hsort, hpage, hunwind⟩ := h
  obtain rfl := Granularity.name_injective hgranularity
  obtain rfl := Window.toJson_injective hwindow
  obtain rfl := conditions_inj hq.filter hq'.filter hfilter
  obtain rfl := conditions_inj hq.filterOr hq'.filterOr hfilterOr
  obtain rfl := Json.arr_map_injective ColumnRef.toJson_injective hgroupBy
  obtain rfl := Json.arr_map_injective FieldSpec.toJson_injective hfields
  obtain rfl := Json.arr_map_injective ColumnRef.toJson_injective hfieldGroup
  obtain rfl := select_inj hq.select hq'.select hselect
  obtain rfl := Json.arr_map_injective SortKey.toJson_injective hsort
  obtain rfl := Json.ofOption_injective Page.toJson_injective nofun hpage
  obtain rfl := Json.text_option_injective hunwind
  rfl

theorem SearchQuery.toJson_inj {q q' : SearchQuery}
    (hq : Legible q.filter q.filterOr q.select) (hq' : Legible q'.filter q'.filterOr q'.select)
    (h : q.toJson = q'.toJson) : q = q' := by
  cases q
  cases q'
  simp only [toJson, Json.obj.injEq, List.cons.injEq, Prod.mk.injEq, Json.bool.injEq, true_and,
    and_true] at h
  obtain ⟨hfilter, hfilterOr, hsort, hpage, hdistinct, hselect, hunwind, rfl, honly, rfl⟩ := h
  obtain rfl := conditions_inj hq.filter hq'.filter hfilter
  obtain rfl := conditions_inj hq.filterOr hq'.filterOr hfilterOr
  obtain rfl := Json.arr_map_injective SortKey.toJson_injective hsort
  obtain rfl := Json.ofOption_injective Page.toJson_injective nofun hpage
  obtain rfl := Json.text_option_injective hdistinct
  obtain rfl := select_inj hq.select hq'.select hselect
  obtain rfl := Json.text_option_injective hunwind
  obtain rfl := Json.arr_map_injective (fun _ _ => Json.str.inj) honly
  rfl

end CostQuery

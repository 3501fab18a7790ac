import CostQuery.Proofs.Filter.Asks
import CostQuery.Proofs.Pipeline.Compile
import CostQuery.Proofs.Select.Meaning
import CostQuery.Proofs.Sql.Refusals
import CostQuery.Proofs.Store.Plain

/-! Computed columns have the same values in the two stores, save for sizes of lists in maps. -/

namespace CostQuery

/-- Lists are cast to texts, and not to lists. -/
structure Engine.CastsLists (g : Engine) : Prop where
  text : ∀ n, ∃ s, g.toText (.list n) = .text s
  decimal : ∀ n m, g.toDecimal (.list n) ≠ .list m

/-! Pipelines. -/

namespace Pipeline
variable {g : Engine} {w : Warehouse} {f : Fields} {s : SelectExpr} {x : Expr} {key : String}

theorem value?_value : (value w (Column.ofKey key)).value? g f =
    some (f.counted w (Column.ofKey key)) := by
  unfold value Fields.counted
  by_cases h : ((Column.ofKey key).sub.isSome && w.isNumericRoot (Column.ofKey key).root) = true
  · by_cases hnull : (f (Column.ofKey key)).isNull = true
    · simp [h, Expr.value?, Column.ofKey_key, hnull]
    · simp [h, Expr.value?, Column.ofKey_key, hnull]
  · simp [h, Expr.value?, Column.ofKey_key]

theorem value?_size (h : (f (Column.ofKey key)).IsListed) :
    (Expr.size (.ifNull (.path (Column.ofKey key).key) .emptyList)).value? g f =
      some (f (Column.ofKey key)).size := by
  rcases h with hv | ⟨n, hv⟩ <;> simp [Expr.value?, Column.ofKey_key, hv, Value.isNull, Value.size]

theorem value?_applied {op : Arithmetic} {l r : Expr} {a b : Value}
    (hl : l.value? g f = some a) (hr : r.value? g f = some b) (ha : a.IsNumeric)
    (hb : b.IsNumeric) : (applied op l r).value? g f = some (Value.applied op a b) := by
  cases op with
  | add | subtract | multiply =>
    rcases ha with rfl | ⟨p, rfl⟩ <;> rcases hb with rfl | ⟨q, rfl⟩ <;>
      simp [applied, Expr.value?, hl, hr, computed?, Value.applied, Value.arithmetic?]
  | divide =>
    rcases hb with rfl | ⟨q, rfl⟩
    · rcases ha with rfl | ⟨p, rfl⟩ <;>
        simp [applied, Expr.value?, hl, hr, compared?, rank, computed?, Value.applied,
          Comparison.holds, isTrue]
    · have hzero : compared? .eq (.number q) (.number 0) = some (decide (q = 0)) := by
        simp [compared?, rank, Value.ordered?, Comparison.holds]
      by_cases hq : q = 0
      · rcases ha with rfl | ⟨p, rfl⟩ <;>
          simp [applied, Expr.value?, hl, hr, hq ▸ hzero, hq, Value.applied, Value.arithmetic?,
            isTrue]
      · rcases ha with rfl | ⟨p, rfl⟩ <;>
          simp [applied, Expr.value?, hl, hr, hzero, hq, computed?, Value.applied,
            Value.arithmetic?, isTrue]

theorem value?_chained {op : Arithmetic} {xs : List Expr} {vs : List Value}
    (h : List.Forall₂ (fun (x : Expr) v => x.value? g f = some v) xs vs)
    (hvs : ∀ v ∈ vs, v.IsNumeric) (hx : chained op xs = .ok x) :
    x.value? g f = some (Value.chained op vs) := by
  cases h with
  | nil => cases hx
  | cons hfirst hrest =>
    obtain rfl := Except.ok.inj hx
    rw [List.forall_mem_cons] at hvs
    exact Value.foldl_applied (R := fun (x : Expr) v => x.value? g f = some v) value?_applied
      hrest hvs.2 hfirst hvs.1

theorem value?_counts (h : s.Counts w f) (hx : computed w (.ofSelect s) = .ok x) :
    x.value? g f = some (s.value g w f) := by
  induction h generalizing x with
  | field =>
    obtain rfl := Except.ok.inj hx
    exact value?_value
  | null | int | float =>
    obtain rfl := Except.ok.inj hx
    rfl
  | size _ listed =>
    obtain rfl := Except.ok.inj hx
    exact value?_size listed
  | @arithmetic op operands operand ih =>
    rw [Computed.ofSelect, computed, computedAll_eq] at hx
    obtain ⟨xs, hxs, hx⟩ := bind_ok.mp hx
    refine value?_chained (SelectExpr.gives_values hxs fun s hs x hx => ih s hs hx) ?_ hx
    exact SelectExpr.isNumeric_values operand

theorem value?_fits (h : s.Fits w f) (hx : computed w (.ofSelect s) = .ok x) :
    x.value? g f = some (s.value g w f) := by
  cases h with
  | plain | text =>
    obtain rfl := Except.ok.inj hx
    exact value?_value
  | literal l =>
    obtain rfl := Except.ok.inj hx
    rfl
  | counts h => exact value?_counts h hx

end Pipeline

/-! SQL. -/

namespace Sql
variable {g : Engine} {r : Reader} {f : Fields} {s : SelectExpr} {c : Column} {e : Expr}
  {v : Value} {key : String}

/-- What a column that is not spread gives. -/
def Reader.given (r : Reader) (g : Engine) (f : Fields) (c : Column) : Value :=
  if c.sub.isNone then f c
  else if r.warehouse.isNumericRoot c.root then
    called g .coalesce [casted g (.decimal r.warehouse.decimalPrecision r.warehouse.decimalScale)
      (f c), .number 0]
  else casted g .string (f c)

theorem value_column (hu : r.unwind = none) (undated : isDateColumn c = false)
    (h : r.column c = .ok e) : e.value g f = r.given g f c := by
  rw [Reader.column, Reader.read, hu] at h
  simp only [Reader.plain] at h
  split at h
  · next p hsub hp => simp [isDateColumn, hsub, hp] at undated
  · next hsub _ => rw [value_stored h, Reader.given, if_pos (by simp [hsub])]
  · next sub hsub =>
    obtain ⟨stored, hs, rfl⟩ := bind_pure_ok.mp h
    rw [Reader.given, if_neg (by simp [hsub]), Reader.typed]
    split
    · rw [if_pos rfl, Expr.value, Expr.values, Expr.values, Expr.values, Expr.value,
        value_stored hs]
      rfl
    · rw [Expr.value, value_stored hs]

/-- Numbers are read alike. -/
theorem given_numeric (counted : c.sub.isSome = true → r.warehouse.isNumericRoot c.root = true)
    (numeric : (f c).IsNumeric) : r.given g f c = f.counted r.warehouse c := by
  rw [Reader.given, Fields.counted]
  cases hsub : c.sub with
  | none => simp
  | some sub =>
    have hroot := counted (by simp [hsub])
    rcases numeric with hv | ⟨q, hv⟩ <;> simp [hroot, hv, called, casted, Value.isNull]

/-- So are texts. -/
theorem given_textual (mapped : r.warehouse.isNumericRoot c.root = false)
    (textual : (f c).IsTextual) : r.given g f c = f.counted r.warehouse c := by
  rw [Reader.given, Fields.counted]
  cases hsub : c.sub with
  | none => simp
  | some sub => rcases textual with hv | ⟨s, hv⟩ <;> simp [mapped, hv, casted, Value.isNull]

theorem value_sizeOf (hv : e.value g f = v) :
    (sizeOf e).value g f = if v.isNull then .number 0 else called g .size [v] := by
  cases hnull : v.isNull <;> simp [sizeOf, Expr.value, Expr.values, Expr.int, hv, hnull]

theorem value_size (hg : g.CastsLists) (hu : r.unwind = none) (undated : isDateColumn c = false)
    (listed : (f c).IsListed) (he : r.computed (.size c) = .ok e) :
    e.value g f = (f c).size ↔ SelectExpr.SizedAlike r.warehouse f c := by
  obtain ⟨list, hlist, rfl⟩ := bind_pure_ok.mp he
  rw [value_sizeOf (value_column hu undated hlist), Reader.given, SelectExpr.SizedAlike]
  cases hsub : c.sub with
  | none => rcases listed with hv | ⟨n, hv⟩ <;> simp [hv, called, Value.isNull, Value.size]
  | some sub =>
    cases hroot : r.warehouse.isNumericRoot c.root with
    | false =>
      rcases listed with hv | ⟨n, hv⟩
      · simp [hv, casted, Value.size]
      · obtain ⟨s, hs⟩ := hg.text n
        simp [hv, casted, hs, Value.isNull, called, Value.size]
    | true =>
      rcases listed with hv | ⟨n, hv⟩
      · simp [hv, casted, called, Value.isNull, Value.size]
      · cases hd : g.toDecimal (.list n) with
        | list m => exact absurd hd (hg.decimal n m)
        | _ => simp [hv, casted, hd, called, Value.isNull, Value.size]

theorem value_applied {op : Arithmetic} {l r : Expr} {a b : Value} (hl : l.value g f = a)
    (hr : r.value g f = b) (ha : a.IsNumeric) (hb : b.IsNumeric) :
    (applied op l r).value g f = Value.applied op a b := by
  have hzero : Expr.value g f (.int 0) = .number 0 := rfl
  cases op with
  | add | subtract | multiply =>
    rcases ha with rfl | ⟨p, rfl⟩ <;> rcases hb with rfl | ⟨q, rfl⟩ <;>
      simp [applied, Expr.value, hl, hr, computed, Value.applied]
  | divide =>
    rcases hb with rfl | ⟨q, rfl⟩
    · rcases ha with rfl | ⟨p, rfl⟩ <;>
        simp [applied, Expr.value, Expr.values, hl, hr, hzero, called, compared, computed,
          Value.applied]
    · have hright : Expr.value g f (.call .nullif [r, .int 0]) =
          if q = 0 then .null else .number q := by
        simp [Expr.value, Expr.values, hr, hzero, called, compared, Value.isNull, Value.ordered?,
          Comparison.holds]
      rw [applied, Expr.value, hl, hright]
      by_cases hq : q = 0 <;> rcases ha with rfl | ⟨p, rfl⟩ <;>
        simp [hq, computed, Value.applied, Value.arithmetic?]

theorem value_chained {op : Arithmetic} {es : List Expr} {vs : List Value}
    (h : List.Forall₂ (fun (e : Expr) v => e.value g f = v) es vs)
    (hvs : ∀ v ∈ vs, v.IsNumeric) (he : chained op es = .ok e) :
    e.value g f = Value.chained op vs := by
  cases h with
  | nil => cases he
  | cons hfirst hrest =>
    obtain rfl := Except.ok.inj he
    rw [List.forall_mem_cons] at hvs
    exact Value.foldl_applied (R := fun (e : Expr) v => e.value g f = v) value_applied hrest
      hvs.2 hfirst hvs.1

theorem value_counts (hg : g.CastsLists) (hu : r.unwind = none) (h : s.Counts r.warehouse f)
    (hsizes : ∀ key ∈ s.sizeKeys, SelectExpr.SizedAlike r.warehouse f (Column.ofKey key))
    (he : r.computed (.ofSelect s) = .ok e) : e.value g f = s.value g r.warehouse f := by
  induction h generalizing e with
  | field undated counted numeric =>
    exact (value_column hu undated he).trans (given_numeric counted numeric)
  | null | int | float =>
    obtain rfl := Except.ok.inj he
    rfl
  | size undated listed =>
    exact (value_size hg hu undated listed he).mpr (hsizes _ (List.mem_singleton_self _))
  | @arithmetic op operands operand ih =>
    rw [Computed.ofSelect, Reader.computed, r.computedAll_eq] at he
    obtain ⟨es, hes, he⟩ := bind_ok.mp he
    refine value_chained (SelectExpr.gives_values hes fun s hs e he => ih s hs ?_ he) ?_ he
    · exact fun key hkey => hsizes key (SelectExpr.mem_sizeKeysOfAll.mpr ⟨s, hs, hkey⟩)
    · exact SelectExpr.isNumeric_values operand

theorem value_fits (hg : g.CastsLists) (hu : r.unwind = none) (h : s.Fits r.warehouse f)
    (hsizes : ∀ key ∈ s.sizeKeys, SelectExpr.SizedAlike r.warehouse f (Column.ofKey key))
    (he : r.computed (.ofSelect s) = .ok e) : e.value g f = s.value g r.warehouse f := by
  cases h with
  | plain undated whole =>
    have hread := value_column (g := g) (f := f) hu undated he
    simpa [Reader.given, SelectExpr.value, Fields.counted, whole] using hread
  | text undated mapped textual =>
    exact (value_column hu undated he).trans (given_textual mapped textual)
  | literal l =>
    obtain rfl := Except.ok.inj he
    rfl
  | counts h => exact value_counts hg hu h hsizes he

end Sql

/-- A computed column has its value in a document: operands applied from the left, exactly, null
where one is missing or zero divides, and the size of a list. It has the same value in SQL, if no
size is of a list inside a map; the size of such a list is another, unless the list is missing from
a map of texts. -/
theorem computed_alike {r : Sql.Reader} {g : Engine} {f : Fields} {s : SelectExpr}
    {x : Pipeline.Expr} {e : Sql.Expr} (hg : g.CastsLists) (hu : r.unwind = none)
    (h : s.Fits r.warehouse f) (hx : Pipeline.computed r.warehouse (.ofSelect s) = .ok x)
    (he : r.computed (.ofSelect s) = .ok e) :
    x.value? g f = some (s.value g r.warehouse f) ∧
      ((∀ key ∈ s.sizeKeys, SelectExpr.SizedAlike r.warehouse f (Column.ofKey key)) →
        e.value g f = s.value g r.warehouse f) ∧
      ∀ key ∈ s.sizeKeys, ∀ size, r.computed (.size (Column.ofKey key)) = .ok size →
        (size.value g f = (f (Column.ofKey key)).size ↔
          SelectExpr.SizedAlike r.warehouse f (Column.ofKey key)) := by
  refine ⟨Pipeline.value?_fits h hx, fun hsizes => Sql.value_fits hg hu h hsizes he, ?_⟩
  intro key hkey size hsize
  cases h.size_listed hkey with
  | size undated listed => exact Sql.value_size hg hu undated listed hsize

/-- A store in which lists of empty structs are texts. -/
def Engine.listing (now : Int) : Engine where
  __ := Engine.plain now
  toText
    | .list n => .text ("[" ++ ", ".intercalate (List.replicate n "\x7b\x7d") ++ "]")
    | _ => .null

theorem listing_castsLists (now : Int) : (Engine.listing now).CastsLists where
  text _ := ⟨_, rfl⟩
  decimal _ _ h := nomatch h

/-- A record with two items, and two resources in a map of numbers. -/
def itemized : Fields := fun c =>
  if c = ⟨"cost", none⟩ then .number 6
  else if c = ⟨"items", none⟩ ∨ c = ⟨"data", some "resources"⟩ then .list 2
  else .null

/-- The cost over the number of items, and over a usage that is missing, less one. -/
def SelectExpr.costOfItem : SelectExpr :=
  .arithmetic .divide [.field "cost", .size "items",
    .arithmetic .subtract [.field "data.usage", .literal (.int 1)]]

theorem SelectExpr.costOfItem_fits : costOfItem.Fits {} itemized := by
  refine .counts (.arithmetic .divide ?_)
  rw [List.forall_mem_cons, List.forall_mem_cons, List.forall_mem_singleton]
  refine ⟨.field (by decide) (by decide) (.inr ⟨6, by decide⟩),
    .size (by decide) (.inr ⟨2, by decide⟩), .arithmetic .subtract ?_⟩
  rw [List.forall_mem_cons, List.forall_mem_singleton]
  exact ⟨.field (by decide) (by decide) (.inl (by decide)), .int 1⟩

theorem computed_alike_costOfItem :
    ∃ x e, Pipeline.computed {} (.ofSelect .costOfItem) = .ok x ∧
      (Sql.Reader.mk {} none).computed (.ofSelect .costOfItem) = .ok e ∧
      x.value? (.listing 0) itemized = some (.number (-3)) ∧
      e.value (.listing 0) itemized = .number (-3) := by
  obtain ⟨hdoc, hsql, -⟩ := computed_alike (r := ⟨{}, none⟩) (listing_castsLists 0) rfl
    SelectExpr.costOfItem_fits rfl rfl
  have hvalue : SelectExpr.costOfItem.value (.listing 0) {} itemized = .number (-3) := by
    decide +kernel
  refine ⟨_, _, rfl, rfl, hdoc.trans (congrArg some hvalue), (hsql ?_).trans hvalue⟩
  have hkeys : SelectExpr.costOfItem.sizeKeys = ["items"] := rfl
  rw [hkeys, List.forall_mem_singleton]
  exact .inl (by decide)

/-- The number of resources is two in the document. SQL takes the size of a decimal, and gives
none. -/
theorem not_alike_mapSize :
    ∃ s x e,
      SelectExpr.ofJson? (.obj [("operator", .str "size"), ("key", .str "data.resources")]) =
        some s ∧
      s.Fits {} itemized ∧ Pipeline.computed {} (.ofSelect s) = .ok x ∧
      (Sql.Reader.mk {} none).computed (.ofSelect s) = .ok e ∧
      x.value? (.listing 0) itemized = some (.number 2) ∧
      e.value (.listing 0) itemized = .null := by
  refine ⟨.size "data.resources", _, _, rfl, ?_, rfl, rfl, ?_, ?_⟩
  · exact .counts (.size (by decide) (.inr ⟨2, by decide⟩))
  · decide +kernel
  · decide +kernel

end CostQuery

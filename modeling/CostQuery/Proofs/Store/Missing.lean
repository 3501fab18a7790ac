import CostQuery.Pipeline.Compile
import CostQuery.Proofs.Column
import CostQuery.Proofs.Pipeline.Meaning
import CostQuery.Proofs.Sql.Meaning
import CostQuery.Proofs.Sql.Unwound
import CostQuery.Proofs.Store.Plain

/-! Where the two stores count what is missing as zero. -/

namespace CostQuery

/-- A record with nothing in it. -/
def Fields.nothing : Fields := fun _ => .null

namespace Sql.Expr

mutual

/-- A default stands in for something missing in it. -/
def coalesces : Expr → Bool
  | .call .coalesce _ => true
  | .call _ args => anyCoalesces args
  | .subscript e _ | .cast e _ | .isNull e _ | .oneOf e _ _ | .ilike e _ _ | .rlike e _
  | .over e _ => coalesces e
  | .compare _ a b | .arithmetic _ a b => coalesces a || coalesces b
  | .and parts | .or parts => anyCoalesces parts
  | .ifThenElse test yes no => coalesces test || coalesces yes || coalesces no
  | .struct slots => slotCoalesces slots
  | .column _ | .literal _ | .star | .now | .today | .never | .interval _ _ => false

def anyCoalesces : List Expr → Bool
  | [] => false
  | e :: rest => coalesces e || anyCoalesces rest

def slotCoalesces : List (String × Expr) → Bool
  | [] => false
  | (_, e) :: rest => coalesces e || slotCoalesces rest

end

theorem anyCoalesces_eq_false {es : List Expr} :
    anyCoalesces es = false ↔ ∀ e ∈ es, e.coalesces = false := by
  induction es with
  | nil => simp [anyCoalesces]
  | cons e rest ih => rw [anyCoalesces, Bool.or_eq_false_iff, ih, List.forall_mem_cons]

end Sql.Expr

namespace Pipeline

mutual

/-- A default stands in for something missing in it. -/
def Expr.coalesces : Expr → Bool
  | .ifNull _ _ => true
  | .path _ | .now | .null | .bool _ | .int _ | .text _ | .emptyList | .literal _ => false
  | .object members => memberCoalesces members
  | .cond test yes no => test.coalesces || yes.coalesces || no.coalesces
  | .compare _ a b | .arithmetic _ a b => a.coalesces || b.coalesces
  | .size e | .toDate e | .startOfDay e | .dateAdd e _ _ => e.coalesces

def memberCoalesces : List (String × Expr) → Bool
  | [] => false
  | (_, e) :: rest => e.coalesces || memberCoalesces rest

end

mutual

def Match.coalesces : Match → Bool
  | .field _ _ => false
  | .expr e => e.coalesces
  | .and parts | .or parts => anyCoalesces parts

def anyCoalesces : List Match → Bool
  | [] => false
  | m :: rest => m.coalesces || anyCoalesces rest

end

theorem anyCoalesces_eq_false {ms : List Match} :
    anyCoalesces ms = false ↔ ∀ m ∈ ms, m.coalesces = false := by
  induction ms with
  | nil => simp [anyCoalesces]
  | cons m rest ih => rw [anyCoalesces, Bool.or_eq_false_iff, ih, List.forall_mem_cons]

end Pipeline

namespace Sql
variable {r : Reader} {c : Column} {e value : Expr} {root : String} {zero : Bool}

/-- Where there is nothing it gives zero, or null. -/
structure Expr.ReadsMissing (e : Expr) (zero : Bool) : Prop where
  coalesces : e.coalesces = zero
  value : ∀ g, e.value g .nothing = if zero then .number 0 else .null

theorem readsMissing_column (n : Name) : (Expr.column n).ReadsMissing false := ⟨rfl, fun _ => rfl⟩

theorem readsMissing_subscript (n : Name) (key : String) :
    (Expr.subscript (.column n) key).ReadsMissing false := ⟨rfl, fun _ => rfl⟩

theorem readsMissing_typed (h : value.ReadsMissing false) :
    (r.typed root value zero).ReadsMissing (zero && r.warehouse.isNumericRoot root) := by
  have hcast (g : Engine) (type : ColumnType) :
      (Expr.cast value type).value g .nothing = .null := by
    simp [Expr.value, h.value g, casted]
  rw [Reader.typed]
  cases r.warehouse.isNumericRoot root with
  | false => exact ⟨by simp [Expr.coalesces, h.coalesces], fun g => by simp [hcast]⟩
  | true =>
    cases zero with
    | false => exact ⟨by simp [Expr.coalesces, h.coalesces], fun g => by simp [hcast]⟩
    | true =>
      refine ⟨rfl, fun g => ?_⟩
      simp [Expr.value, Expr.values, h.value g, casted, called, Expr.int]

theorem readsMissing_dateBucket {p : Precision} (h : r.dateBucket p = .ok e) :
    e.ReadsMissing false := by
  obtain ⟨column, hn, rfl⟩ := bind_pure_ok.mp h
  obtain ⟨n, -, rfl⟩ := Expr.ofName_ok hn
  exact ⟨rfl, fun _ => rfl⟩

/-- The column is a number inside a map, or inside the items that are spread. -/
def Reader.isCounted (r : Reader) (c : Column) : Bool :=
  r.warehouse.isNumericRoot c.root && (r.keyWithin? c).isSome

theorem readsMissing_read (h : r.read c zero = .ok e) :
    e.ReadsMissing (zero && r.isCounted c) := by
  have hread := Reader.read_readAs h
  rw [Reader.isCounted]
  generalize r.keyWithin? c = key? at hread ⊢
  cases hread with
  | whole n => simpa using readsMissing_column n
  | date bucket => simpa using readsMissing_dateBucket bucket
  | typed n key => simpa using readsMissing_typed (readsMissing_subscript n key)

theorem readsMissing_tested (h : r.tested c = .ok e) : e.ReadsMissing false :=
  readsMissing_read h

/-! Tests. -/

theorem coalesces_ofName {name : String} (h : Expr.ofName name = .ok e) :
    e.coalesces = false := by
  obtain ⟨n, -, rfl⟩ := Expr.ofName_ok h
  rfl

theorem coalesces_within {m : Months} {month : Expr} (h : month.coalesces = false) :
    (m.within month).coalesces = false := by
  rw [Months.within]
  split <;> simp [Expr.coalesces, Expr.anyCoalesces, Expr.text, h]

theorem coalesces_bounds {m : Months} {op : Comparison} {month : Expr}
    (h : month.coalesces = false) : (m.bounds op month).coalesces = false := by
  cases op with
  | eq | notEq => exact coalesces_within h
  | lt | lte | gt | gte => simp [Months.bounds, Expr.coalesces, Expr.text, h]

theorem coalesces_withPartition {test : Expr} {partition? : Option Expr}
    (h : test.coalesces = false) (hp : ∀ p ∈ partition?, p.coalesces = false) :
    (withPartition test partition?).coalesces = false := by
  cases partition? with
  | none => exact h
  | some p => simp [withPartition, Expr.coalesces, Expr.anyCoalesces, h, hp p rfl]

theorem coalesces_comparePartition {op : Comparison} {value : Literal} {partition? : Option Expr}
    (h : r.comparePartition c op value = .ok partition?) :
    ∀ p ∈ partition?, p.coalesces = false := by
  rw [Reader.comparePartition] at h
  split at h
  · obtain rfl := Except.ok.inj h
    exact fun _ => nofun
  · split at h
    · obtain rfl := Except.ok.inj h
      exact fun _ => nofun
    · obtain ⟨month, hmonth, rfl⟩ := map_ok.mp h
      intro p hp
      obtain rfl := Option.some.inj hp
      exact coalesces_bounds (coalesces_ofName hmonth)

theorem coalesces_listPartition {values : List Literal} {partition? : Option Expr}
    (h : r.listPartition c values = .ok partition?) : ∀ p ∈ partition?, p.coalesces = false := by
  rw [Reader.listPartition] at h
  split at h
  · obtain rfl := Except.ok.inj h
    exact fun _ => nofun
  · split at h
    · obtain rfl := Except.ok.inj h
      exact fun _ => nofun
    · obtain ⟨month, hmonth, rfl⟩ := map_ok.mp h
      have hcolumn := coalesces_ofName hmonth
      intro p hp
      split at hp
      · obtain rfl := Option.some.inj hp
        exact hcolumn
      · obtain rfl := Option.some.inj hp
        rw [Expr.coalesces, Expr.anyCoalesces_eq_false]
        exact List.forall_mem_map.mpr fun m _ => coalesces_within hcolumn

theorem coalesces_momentOf (t : RelativeTime) : (momentOf t).coalesces = false := by
  obtain ⟨dayStart, offset⟩ := t
  cases dayStart <;> cases offset <;> rfl

/-- No test puts a default for what is missing. -/
theorem coalesces_filter {p : Predicate} (h : r.filter p = .ok e) : e.coalesces = false := by
  induction p using Predicate.of_parts generalizing e with
  | test p hp =>
    cases p with
    | isNull c | isNotNull c | regex c pattern | contains c text negated | datetime c op text =>
      obtain ⟨read, hread, rfl⟩ := bind_pure_ok.mp h
      simpa [Expr.coalesces, Expr.text] using (readsMissing_tested hread).coalesces
    | timediff c op t =>
      obtain ⟨read, hread, rfl⟩ := bind_pure_ok.mp h
      simpa [Expr.coalesces, coalesces_momentOf] using (readsMissing_tested hread).coalesces
    | compare c op value =>
      obtain ⟨read, partition?, hread, hpartition, rfl⟩ := Reader.filter_compare h
      refine coalesces_withPartition ?_ (coalesces_comparePartition hpartition)
      simpa [Expr.coalesces] using (readsMissing_tested hread).coalesces
    | oneOf c values negated =>
      cases negated with
      | true =>
        obtain ⟨read, hread, rfl⟩ := bind_pure_ok.mp h
        exact (readsMissing_tested hread).coalesces
      | false =>
        obtain ⟨read, partition?, hread, hpartition, rfl⟩ := Reader.filter_oneOf h
        exact coalesces_withPartition (readsMissing_tested hread).coalesces
          (coalesces_listPartition hpartition)
    | never =>
      obtain rfl := Except.ok.inj h
      rfl
    | and | or => cases hp
  | and parts ih =>
    obtain ⟨es, rfl, hes⟩ := r.filter_joins.and_ok.mp h
    refine Expr.anyCoalesces_eq_false.mpr fun e he => ?_
    obtain ⟨p, hp, hpe⟩ := exists_of_forall₂ hes.flip he
    exact ih p hp hpe
  | or parts ih =>
    obtain ⟨es, rfl, hes⟩ := r.filter_joins.or_ok.mp h
    refine Expr.anyCoalesces_eq_false.mpr fun e he => ?_
    obtain ⟨p, hp, hpe⟩ := exists_of_forall₂ hes.flip he
    exact ih p hp hpe

end Sql

namespace Pipeline
variable {w : Warehouse} {g : Engine} {c : Column}

theorem coalesces_value : (value w c).coalesces = (w.isNumericRoot c.root && c.sub.isSome) := by
  rw [value]
  cases w.isNumericRoot c.root <;> cases c.sub.isSome <;> simp [Expr.coalesces]

theorem value?_missing : (value w c).value? g .nothing =
    some (if (value w c).coalesces then .number 0 else .null) := by
  rw [coalesces_value, value]
  cases w.isNumericRoot c.root <;> cases c.sub.isSome <;>
    simp [Expr.value?, Fields.nothing]

/-- No test puts a default for what is missing. -/
theorem coalesces_ofPredicate (p : Predicate) : (Match.ofPredicate p).coalesces = false := by
  induction p using Predicate.of_parts with
  | test p hp =>
    cases p with
    | isNull | isNotNull | regex | never | datetime => rfl
    | compare c op => cases op <;> rfl
    | contains c text negated => cases negated <;> rfl
    | oneOf c values negated => cases negated <;> rfl
    | timediff c op t =>
      obtain ⟨dayStart, offset⟩ := t
      cases dayStart <;> cases offset <;> rfl
    | and | or => cases hp
  | and parts ih | or parts ih =>
    rw [Match.ofPredicate, Match.coalesces, matchesOf_eq, anyCoalesces_eq_false]
    exact List.forall_mem_map.mpr ih

end Pipeline

namespace Sql
variable {r : Reader} {c above : Column}

/-- The column is the spread list itself, and a number inside a map by its root. -/
def Reader.SpreadsNumber (r : Reader) (c : Column) : Prop :=
  r.warehouse.isNumericRoot c.root = true ∧ c.sub.isSome = true ∧
    ∃ above ∈ r.unwind, c.key = above.key ∨ c.key = above.key ++ "."

theorem isUnder_of_spread (h : c.key = above.key ∨ c.key = above.key ++ ".") :
    c.isUnder above = true := by
  rw [Column.isUnder_iff]
  rcases h with heq | hdot
  · exact .inl heq
  · exact .inr ⟨"", by rw [hdot, String.append_empty]⟩

/-- What lies beneath a column is inside a map. -/
theorem sub_of_isUnder {key : String} (hc : c = Column.ofKey key) (h : c.isUnder above = true)
    (hbeneath : keyBeneath? c above ≠ none) : c.sub.isSome = true := by
  rw [Ne, keyBeneath?_eq_none h, not_or] at hbeneath
  obtain ⟨sub, hkey⟩ := (Column.isUnder_iff.mp h).resolve_left hbeneath.1
  rw [← Option.ne_none_iff_isSome]
  intro hwhole
  subst hc
  apply Column.dot_notMem_of_whole hwhole
  rw [hkey]
  simp

theorem isCounted_iff {key : String} (hc : c = Column.ofKey key) :
    r.isCounted c = (r.warehouse.isNumericRoot c.root && c.sub.isSome) ↔ ¬ r.SpreadsNumber c := by
  rw [Reader.isCounted, Reader.keyWithin?, Reader.SpreadsNumber]
  cases hroot : r.warehouse.isNumericRoot c.root with
  | false => simp
  | true =>
    cases hu : r.unwind with
    | none => simp
    | some above =>
      by_cases hunder : c.isUnder above = true
      · by_cases hnone : keyBeneath? c above = none
        · have hspread := (keyBeneath?_eq_none hunder).mp hnone
          cases hsub : c.sub.isSome <;> simp [hunder, hnone, hspread]
        · have hsub := sub_of_isUnder hc hunder hnone
          have hspread := (keyBeneath?_eq_none hunder).not.mp hnone
          simp [hunder, hsub, hspread, Option.isSome_iff_ne_none, hnone]
      · have hspread : ¬ (c.key = above.key ∨ c.key = above.key ++ ".") :=
          fun h => hunder (isUnder_of_spread h)
        simp [hunder, hspread]

end Sql

/-- A missing number is zero to both stores, or null to both, unless the column is the list that is
spread and a number inside a map by its root. Nothing else than zero is put for what is missing, and
nothing at all in tests. -/
theorem missing_alike {r : Sql.Reader} {key : String} {e : Sql.Expr}
    (h : r.column (Column.ofKey key) = .ok e) :
    (e.coalesces = (Pipeline.value r.warehouse (Column.ofKey key)).coalesces ↔
        ¬ r.SpreadsNumber (Column.ofKey key)) ∧
      (∀ g, e.value g .nothing = if e.coalesces then .number 0 else .null) ∧
      (∀ g, (Pipeline.value r.warehouse (Column.ofKey key)).value? g .nothing =
        some (if (Pipeline.value r.warehouse (Column.ofKey key)).coalesces then .number 0
          else .null)) ∧
      (∀ read, r.tested (Column.ofKey key) = .ok read →
        read.coalesces = false ∧ ∀ g, read.value g .nothing = .null) ∧
      ∀ p, (∀ test, r.filter p = .ok test → test.coalesces = false) ∧
        (Pipeline.Match.ofPredicate p).coalesces = false := by
  have hread := Sql.readsMissing_read h
  rw [Bool.true_and] at hread
  refine ⟨?_, fun g => ?_, fun g => Pipeline.value?_missing, fun read htested => ?_,
    fun p => ⟨fun test htest => Sql.coalesces_filter htest, Pipeline.coalesces_ofPredicate p⟩⟩
  · rw [hread.coalesces, Pipeline.coalesces_value, Sql.isCounted_iff rfl]
  · rw [hread.coalesces, hread.value g]
  · exact ⟨(Sql.readsMissing_tested htested).coalesces, (Sql.readsMissing_tested htested).value⟩

/-- A number beneath the items of a spread list. -/
theorem missing_alike_beneath :
    ∃ e, (Sql.Reader.mk {} (some (Column.ofKey "data.items"))).column
        (Column.ofKey "data.items.quantity") = .ok e ∧
      e.coalesces = true ∧
      (Pipeline.value {} (Column.ofKey "data.items.quantity")).coalesces = true := by
  have hread : (Sql.Reader.mk {} (some (Column.ofKey "data.items"))).column
      (Column.ofKey "data.items.quantity") = .ok _ := rfl
  obtain ⟨halike, -⟩ := missing_alike hread
  have hnot : ¬ (Sql.Reader.mk {} (some (Column.ofKey "data.items"))).SpreadsNumber
      (Column.ofKey "data.items.quantity") := by
    rintro ⟨-, -, above, habove, hkey⟩
    obtain rfl := Option.some.inj habove
    revert hkey
    decide
  exact ⟨_, hread, rfl, (halike.mpr hnot).symm⟩

/-- The items of a list in a map of numbers, spread: a missing item is null in SQL, and zero in the
document. -/
theorem not_missing_alike_spread :
    ∃ e, (Sql.Reader.mk {} (some (Column.ofKey "data.items"))).column (Column.ofKey "data.items") =
        .ok e ∧
      Sql.isDateColumn (Column.ofKey "data.items") = false ∧
      e.value (.plain 0) .nothing = .null ∧
      (Pipeline.value {} (Column.ofKey "data.items")).value? (.plain 0) .nothing =
        some (.number 0) := by
  refine ⟨_, rfl, ?_, ?_, ?_⟩ <;> decide

end CostQuery

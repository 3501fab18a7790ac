import CostQuery.Proofs.Sql.Meaning
import CostQuery.Proofs.Sql.Months
import CostQuery.Proofs.Store.Plain

/-! Tests of partitions beside tests of dates, and the rows that they drop. -/

namespace CostQuery

/-- The test cuts the year of the date short. -/
def Predicate.CutsYear (date : String) : Predicate → Prop
  | .compare c op (.text t) =>
    c.sub = none ∧ ∃ p, Precision.ofColumn? c.root = some p ∧
      Sql.CutShort p op t.toList date.toList
  | _ => False

namespace Sql

/-- The billed time begins with a date, and the partition is the month of the date. -/
structure Partitioned (w : Warehouse) (f : Fields) (date : String) : Prop where
  billed : f ⟨w.billedAtColumn, none⟩ = .text date
  starts : StartsWithDate date.toList
  partition : f ⟨w.partitionColumn, none⟩ = .text (monthOf date)

/-- A record of the default warehouse that was billed in July 2024. -/
def july : Fields := fun c =>
  if c = ⟨"billed_at", none⟩ then .text "2024-07-15T08:30:00"
  else if c = ⟨"billed_partition", none⟩ then .text "2024-07"
  else .null

theorem july_partitioned : Partitioned {} july "2024-07-15T08:30:00" where
  billed := rfl
  starts := ⟨"2024".toList, "15".toList, "T08:30:00".toList, 7, by decide, by decide, by decide, rfl⟩
  partition := rfl

namespace Reader

mutual

/-- A predicate without the tests of partitions. -/
def unpruned (r : Reader) : Predicate → Compiled Expr
  | .compare c op value => do return .compare op (← r.tested c) (.literal value)
  | .oneOf c values false => do return .oneOf (← r.tested c) values false
  | .and parts => do return .and (← r.unprunedAll parts)
  | .or parts => do return .or (← r.unprunedAll parts)
  | test => r.filter test

def unprunedAll (r : Reader) : List Predicate → Compiled (List Expr)
  | [] => .ok []
  | p :: rest => do return (← r.unpruned p) :: (← r.unprunedAll rest)

end

theorem unpruned_joins (r : Reader) : Joins r.unpruned :=
  .of_each rfl (fun _ _ => rfl) (fun _ => rfl) (fun _ => rfl)

end Reader

variable {r : Reader} {g : Engine} {f : Fields} {date : String} {c : Column} {p : Predicate}
  {e month : Expr}

theorem value_of_ofName {name : String} (h : Expr.ofName name = .ok e) :
    e.value g f = f ⟨name, none⟩ := by
  obtain ⟨n, rfl, rfl⟩ := Expr.ofName_ok h
  rfl

theorem value_partition (hf : Partitioned r.warehouse f date) (h : r.partition = .ok month) :
    month.value g f = .text (monthOf date) := by
  rw [value_of_ofName h, hf.partition]

theorem value_dateBucket {p : Precision} (hf : Partitioned r.warehouse f date)
    (h : r.dateBucket p = .ok e) : e.value g f = .text (headOf p date) := by
  rw [Reader.dateBucket] at h
  obtain ⟨billed, hn, rfl⟩ := bind_pure_ok.mp h
  simp [Expr.value, Expr.values, value_of_ofName hn, hf.billed, called, Expr.int, headOf]

/-- A date column gives the head of the billed date. -/
theorem value_tested {p : Precision} (hu : r.unwind = none) (hf : Partitioned r.warehouse f date)
    (hs : c.sub = none) (hp : Precision.ofColumn? c.root = some p) (h : r.tested c = .ok e) :
    e.value g f = .text (headOf p date) := by
  rw [Reader.tested, Reader.read, hu] at h
  simp only [Reader.plain, hs, hp] at h
  exact value_dateBucket hf h

theorem isDateColumn_eq_true :
    isDateColumn c = true ↔ c.sub = none ∧ ∃ p, Precision.ofColumn? c.root = some p := by
  simp [isDateColumn, Option.isSome_iff_exists]

theorem selects_withPartition {test : Expr} {partition : Option Expr} :
    (withPartition test partition).Selects g f ↔
      test.Selects g f ∧ ∀ e ∈ partition, e.Selects g f := by
  cases partition with
  | none => simp [withPartition]
  | some e => simp [withPartition, Expr.selects_and]

namespace Months
variable {m : Months} {s : String}

theorem selects_within (h : month.value g f = .text s) :
    (m.within month).Selects g f ↔ m.first ≤ s ∧ s ≤ m.last := by
  rw [within]
  split
  · next he =>
    rw [Expr.selects_compare, h, ← he]
    simp only [Expr.value, Expr.text, Engine.literal_text, compared_text, Comparison.holds,
      Option.some.injEq, decide_eq_true_eq]
    rw [le_antisymm_iff, and_comm]
  · simp [Expr.selects_and, Expr.selects_compare, h, Expr.value, Expr.text, Comparison.holds]

theorem selects_bounds {op : Comparison} (h : month.value g f = .text s) :
    (m.bounds op month).Selects g f ↔ m.Admits op s := by
  cases op with
  | eq | notEq => exact selects_within h
  | lt | lte | gt | gte =>
    simp [bounds, Expr.selects_compare, h, Expr.value, Expr.text, Comparison.holds, Admits]

/-- If every literal has its months, every literal is a text. -/
theorem of_mapM {values : List Literal} {months : List Months}
    (h : values.mapM ofLiteral? = some months) :
    ∃ ts : List String, values = ts.map .text ∧
      List.Forall₂ (fun t m => ofLiteral? (.text t) = some m) ts months := by
  have hall := mapM_some h
  clear h
  induction hall with
  | nil => exact ⟨[], rfl, .nil⟩
  | @cons v m _ _ hm _ ih =>
    obtain ⟨ts, rfl, hts⟩ := ih
    cases v with
    | text t => exact ⟨t :: ts, rfl, .cons hm hts⟩
    | null | bool | int | float => simp [ofLiteral?, Literal.asText?] at hm

end Months

section
variable {op : Comparison} {value : Literal} {values : List Literal} {partition : Option Expr}

theorem ofLiteral?_isSome {t : String} (h : isMonth (t.toList.take 7) = true) :
    ∃ m, Months.ofLiteral? (.text t) = some m := by
  simp only [Months.ofLiteral?, Literal.asText?, Option.bind_eq_bind, Option.bind_some, h]
  split <;> exact ⟨_, rfl⟩

/-- Where a comparison cuts a year short, there is a test of the partition. -/
theorem partition_of_cutsYear (h : (Predicate.compare c op value).CutsYear date) :
    isDateColumn c = true ∧ op ≠ .notEq ∧ ∃ m, Months.ofLiteral? value = some m := by
  cases value with
  | text t =>
    obtain ⟨hsub, p, hroot, -, hop, ht, -⟩ := h
    refine ⟨isDateColumn_eq_true.mpr ⟨hsub, p, hroot⟩, ?_, ofLiteral?_isSome ht⟩
    rcases hop with rfl | rfl <;> simp
  | null | bool | int | float => exact h.elim

/-- Beside a comparison that a date meets stands no test, or one that its month meets, unless the
comparison cuts the year short. -/
theorem selects_comparePartition (hu : r.unwind = none) (hf : Partitioned r.warehouse f date)
    (hc : r.tested c = .ok e) (hp : r.comparePartition c op value = .ok partition)
    (hs : (Expr.compare op e (.literal value)).Selects g f) :
    (∀ part ∈ partition, part.Selects g f) ↔ ¬ (Predicate.compare c op value).CutsYear date := by
  rw [Reader.comparePartition] at hp
  split at hp
  · next hd =>
    obtain rfl := Except.ok.inj hp
    refine iff_of_true (by simp) fun hcut => ?_
    obtain ⟨hdate, hop, -⟩ := partition_of_cutsYear hcut
    simp [hdate, hop] at hd
  · next hd =>
    simp only [Bool.or_eq_true, Bool.not_eq_true', decide_eq_true_eq, not_or,
      Bool.not_eq_false] at hd
    obtain ⟨hsub, p, hroot⟩ := isDateColumn_eq_true.mp hd.1
    split at hp
    · next hm =>
      obtain rfl := Except.ok.inj hp
      refine iff_of_true (by simp) fun hcut => ?_
      obtain ⟨-, -, m, hm'⟩ := partition_of_cutsYear hcut
      rw [hm] at hm'
      cases hm'
    · next m hm =>
      cases value with
      | null | bool | int | float => simp [Months.ofLiteral?, Literal.asText?] at hm
      | text t =>
        obtain ⟨month, hpart, rfl⟩ := map_ok.mp hp
        rw [Expr.selects_compare, value_tested hu hf hsub hroot hc] at hs
        simp only [Expr.value, Engine.literal_text, compared_text, Option.some.injEq] at hs
        simp only [Option.mem_some_iff, forall_eq',
          Months.selects_bounds (value_partition hf hpart)]
        constructor
        · rintro hadmits ⟨-, p', hroot', hcut⟩
          exact (Months.holds_of_cutShort hm hcut).2 hadmits
        · intro hcut
          exact Months.admits_of_holds hf.starts hm hd.2 hs
            fun hshort => hcut ⟨hsub, p, hroot, hshort⟩

/-- Beside a list that holds a date stands no test, or one that its month meets. -/
theorem selects_listPartition (hu : r.unwind = none) (hf : Partitioned r.warehouse f date)
    (hc : r.tested c = .ok e) (hp : r.listPartition c values = .ok partition)
    (hs : (Expr.oneOf e values false).Selects g f) : ∀ part ∈ partition, part.Selects g f := by
  rw [Reader.listPartition] at hp
  split at hp
  · obtain rfl := Except.ok.inj hp
    simp
  · next hd =>
    rw [Bool.not_eq_true', Bool.not_eq_false] at hd
    obtain ⟨hsub, p, hroot⟩ := isDateColumn_eq_true.mp hd
    split at hp
    · obtain rfl := Except.ok.inj hp
      simp
    · next months hm =>
      obtain ⟨ts, rfl, hts⟩ := Months.of_mapM hm
      obtain ⟨month, hpart, rfl⟩ := map_ok.mp hp
      have hmonth : month.value g f = .text (monthOf date) := value_partition hf hpart
      rw [Expr.selects_texts (value_tested hu hf hsub hroot hc)] at hs
      obtain ⟨m, hmem, hm⟩ := exists_of_forall₂ hts hs
      have hadmits : m.Admits .eq (monthOf date) :=
        Months.admits_of_holds (p := p) hf.starts hm (by simp) (by simp [Comparison.holds])
          (by simp [CutShort])
      intro part hmem'
      split at hmem'
      · next hall =>
        obtain rfl := Option.mem_some_iff.mp hmem'
        have hone : m.first = m.last := by simpa using List.all_eq_true.mp hall m hmem
        have hfirst : monthOf date = m.first := le_antisymm (hone ▸ hadmits.2) hadmits.1
        rw [Expr.selects_texts hmonth, List.mem_eraseDups, hfirst]
        exact List.mem_map_of_mem hmem
      · obtain rfl := Option.mem_some_iff.mp hmem'
        exact Expr.selects_or.mpr
          ⟨_, List.mem_map_of_mem hmem, (Months.selects_within hmonth).mpr hadmits⟩

namespace Reader

/-- A test is cut out of the rows it selects without the partitions where it cuts a year short. -/
theorem test_selects (hu : r.unwind = none) (hf : Partitioned r.warehouse f date)
    (hp : p.isTest = true) (h : r.filter p = .ok e) :
    ∃ base, r.unpruned p = .ok base ∧
      (e.Selects g f ↔ base.Selects g f ∧ ¬ p.CutsYear date) := by
  cases p with
  | compare c op value =>
    obtain ⟨read, partition, hc, hpart, rfl⟩ := filter_compare h
    refine ⟨_, bind_ok.mpr ⟨read, hc, rfl⟩, ?_⟩
    rw [selects_withPartition]
    exact and_congr_right (selects_comparePartition hu hf hc hpart)
  | oneOf c values negated =>
    cases negated with
    | false =>
      obtain ⟨read, partition, hc, hpart, rfl⟩ := filter_oneOf h
      refine ⟨_, bind_ok.mpr ⟨read, hc, rfl⟩, ?_⟩
      rw [selects_withPartition]
      refine and_congr_right fun hs => ?_
      exact ⟨fun _ => id, fun _ => selects_listPartition hu hf hc hpart hs⟩
    | true => exact ⟨e, h, by simp [Predicate.CutsYear]⟩
  | and | or => simp [Predicate.isTest] at hp
  | isNull | isNotNull | regex | contains | datetime | timediff | never =>
    exact ⟨e, h, by simp [Predicate.CutsYear]⟩

/-- A year that is cut short comes before the literal. -/
theorem unpruned_of_cutsYear (hu : r.unwind = none) (hf : Partitioned r.warehouse f date)
    (hcut : p.CutsYear date) (h : r.unpruned p = .ok e) : e.Selects g f := by
  cases p with
  | compare c op value =>
    cases value with
    | text t =>
      obtain ⟨hsub, p, hroot, hshort⟩ := hcut
      obtain ⟨m, hm⟩ := ofLiteral?_isSome hshort.2.2.1
      rw [unpruned] at h
      obtain ⟨read, hc, rfl⟩ := bind_pure_ok.mp h
      rw [Expr.selects_compare, value_tested hu hf hsub hroot hc]
      simpa [Expr.value] using (Months.holds_of_cutShort hm hshort).1
    | null | bool | int | float => exact hcut.elim
  | _ => exact hcut.elim

/-- A predicate with tests of partitions selects what it selects without them, save for the tests
that cut the year of the date short: these select nothing more, and would have been met. -/
theorem selects_unpruned_iff (hu : r.unwind = none) (hf : Partitioned r.warehouse f date)
    (h : r.filter p = .ok e) :
    ∃ base, r.unpruned p = .ok base ∧
      (e.Selects g f → base.Selects g f) ∧
      ((∀ t ∈ p.tests, ¬ t.CutsYear date) → (e.Selects g f ↔ base.Selects g f)) ∧
      (e.Selects g f ↔ p.holds fun t => Met g f r.unpruned t ∧ ¬ t.CutsYear date) ∧
      ∀ t ∈ p.tests, (Met g f r.filter t ↔ Met g f r.unpruned t) ↔ ¬ t.CutsYear date := by
  have hmet : ∀ t ∈ p.tests,
      (Met g f r.filter t ↔ Met g f r.unpruned t ∧ ¬ t.CutsYear date) := by
    intro t ht
    obtain ⟨e', he'⟩ := r.filter_joins.test_ok h ht
    obtain ⟨b, hb, hs⟩ := test_selects hu hf (Predicate.isTest_of_mem_tests ht) he'
    simpa [Met, he', hb] using hs
  obtain ⟨base, hbase⟩ := r.filter_joins.exists_of_tests r.unpruned_joins h fun t ht e' he' =>
    (test_selects (g := g) hu hf (Predicate.isTest_of_mem_tests ht) he').imp fun _ => And.left
  have hiff : e.Selects g f ↔ p.holds fun t => Met g f r.unpruned t ∧ ¬ t.CutsYear date := by
    rw [r.filter_joins.selects_iff h]
    exact Predicate.holds_congr hmet
  refine ⟨base, hbase, ?_, ?_, hiff, ?_⟩
  · rw [hiff, r.unpruned_joins.selects_iff hbase]
    exact Predicate.holds_mono fun t _ => And.left
  · intro hcut
    rw [hiff, r.unpruned_joins.selects_iff hbase]
    exact Predicate.holds_congr fun t ht => and_iff_left (hcut t ht)
  · intro t ht
    rw [hmet t ht]
    constructor
    · intro hsame hcut
      obtain ⟨b, hb⟩ := r.unpruned_joins.test_ok hbase ht
      exact (hsame.mpr ⟨b, hb, unpruned_of_cutsYear hu hf hcut hb⟩).2 hcut
    · intro hcut
      exact and_iff_left hcut

/-- Years that are compared with years are not cut short. -/
theorem selects_unpruned_july :
    ∃ e base,
      (Reader.mk {} none).filter (.and [.compare ⟨"billed_year", none⟩ .lte (.text "2024"),
        .oneOf ⟨"billed_month", none⟩ [.text "2024-06", .text "2024-07"] false]) = .ok e ∧
      (Reader.mk {} none).unpruned (.and [.compare ⟨"billed_year", none⟩ .lte (.text "2024"),
        .oneOf ⟨"billed_month", none⟩ [.text "2024-06", .text "2024-07"] false]) = .ok base ∧
      e.Selects (.plain 0) july ∧ base.Selects (.plain 0) july := by
  obtain ⟨base, hbase, hsound, -, -⟩ := selects_unpruned_iff (g := .plain 0) (r := ⟨{}, none⟩)
    (p := .and [.compare ⟨"billed_year", none⟩ .lte (.text "2024"),
      .oneOf ⟨"billed_month", none⟩ [.text "2024-06", .text "2024-07"] false])
    rfl july_partitioned rfl
  refine ⟨_, base, rfl, hbase, ?_, hsound ?_⟩ <;> decide

/-- A year that is compared with a month of it: the test of the year is met, but not the test of
the partition. -/
theorem not_selects_unpruned_july :
    Partitioned {} july "2024-07-15T08:30:00" ∧ ∃ e base,
      (Reader.mk {} none).filter (.compare ⟨"billed_year", none⟩ .lte (.text "2024-03")) = .ok e ∧
      (Reader.mk {} none).unpruned (.compare ⟨"billed_year", none⟩ .lte (.text "2024-03")) =
        .ok base ∧
      base.Selects (.plain 0) july ∧ ¬ e.Selects (.plain 0) july := by
  refine ⟨july_partitioned, _, _, rfl, rfl, ?_, ?_⟩ <;> decide

end Reader
end
end Sql
end CostQuery

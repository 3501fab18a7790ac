import CostQuery.Proofs.Column
import CostQuery.Proofs.Filter.Lowered
import CostQuery.Proofs.Pipeline.Meaning
import CostQuery.Proofs.Sql.Meaning

/-! What tests ask of a record, and how each store answers. -/

namespace CostQuery

/-- The record holds texts, or nothing. -/
def Fields.OnlyTexts (f : Fields) : Prop := ∀ c, f c = .null ∨ ∃ s, f c = .text s

/-- The column is read as it is stored. -/
def Sql.Reader.ReadsStored (r : Sql.Reader) (c : Column) : Prop :=
  Sql.isDateColumn c = false ∧ (c.sub.isSome = true → r.warehouse.isNumericRoot c.root = false)

/-- The moment that a time relative to now names. -/
def RelativeTime.moment (g : Engine) (t : RelativeTime) : Int :=
  let anchor := if t.dayStart then g.startOfDay g.now else g.now
  match t.offset with
  | none => anchor
  | some (amount, unit) => anchor + amount * unit.micros

namespace Predicate

/-- It compares with texts alone. -/
def OnTexts : Predicate → Prop
  | .compare _ _ v => ∃ s, v = .text s
  | .oneOf _ vs _ => ∃ ts : List String, vs = ts.map .text
  | _ => True

/-- What a test asks of a text in its column. Null meets nothing but the test for null. -/
def Asks (g : Engine) (f : Fields) : Predicate → Prop
  | .isNull c => f c = .null
  | .isNotNull c => f c ≠ .null
  | .compare c op v => Value.ordered? op (f c) (g.literal v) = some true
  | .regex c pattern => ∃ s, f c = .text s ∧ g.regex pattern s = true
  | .contains c text negated =>
    ∃ s, f c = .text s ∧ g.regexAnyCase (Text.escape Text.regexSpecial text) s = !negated
  | .oneOf c vs negated => ∃ s, f c = .text s ∧ (vs.map g.literal).contains (.text s) = !negated
  | .datetime c op text =>
    ∃ s a b, f c = .text s ∧ g.moment? (.text s) = some a ∧ g.moment? (.text text) = some b ∧
      op.holds a b = true
  | .timediff c op time =>
    ∃ s a, f c = .text s ∧ g.moment? (.text s) = some a ∧ op.holds a (time.moment g) = true
  | .and _ | .or _ | .never => False

/-- The comparison is met by what comes before everything else. -/
def NullFirst (op : Comparison) : Prop := op = .lt ∨ op = .lte ∨ op = .notEq

/-- A missing moment that meets its comparison if null comes before every moment. -/
def MeetsNull (g : Engine) (f : Fields) : Predicate → Prop
  | .datetime c op text => f c = .null ∧ NullFirst op ∧ (g.moment? (.text text)).isSome = true
  | .timediff c op _ => f c = .null ∧ NullFirst op
  | _ => False

/-- A time that is written as a path or a variable of the document store. -/
def Refers : Predicate → Prop
  | .datetime _ _ text => text.toList.head? = some '$'
  | _ => False

end Predicate

section
variable {r : Sql.Reader} {g : Engine} {f : Fields} {c : Column} {p t : Predicate} {e : Sql.Expr}
  {op : Comparison} {v : Value}

theorem value_stored (h : Sql.stored c = .ok e) : e.value g f = f c := by
  obtain ⟨root, sub⟩ := c
  rw [Sql.stored] at h
  obtain ⟨column, hn, h⟩ := bind_ok.mp h
  obtain ⟨n, rfl, rfl⟩ := Sql.Expr.ofName_ok hn
  cases sub with
  | none | some =>
    obtain rfl := pure_ok.mp h
    rfl

theorem value_readsStored (hu : r.unwind = none) (hf : f.OnlyTexts) (hc : r.ReadsStored c)
    (h : r.tested c = .ok e) : e.value g f = f c := by
  rw [Sql.Reader.tested, Sql.Reader.read, hu] at h
  simp only [Sql.Reader.plain] at h
  split at h
  · next p hsub hp =>
    have hdate : Sql.isDateColumn c = true := by simp [Sql.isDateColumn, hsub, hp]
    rw [hc.1] at hdate
    cases hdate
  · exact value_stored h
  · next sub hsub =>
    have hnum := hc.2 (by simp [hsub])
    obtain ⟨stored, hs, rfl⟩ := bind_pure_ok.mp h
    rw [Sql.Reader.typed, if_neg (by simp [hnum]), Sql.Expr.value, value_stored hs]
    rcases hf c with hv | ⟨s, hv⟩ <;> simp [Sql.casted, hv]

theorem sql_momentOf (time : RelativeTime) :
    (Sql.momentOf time).value g f = .moment (time.moment g) := by
  obtain ⟨dayStart, offset⟩ := time
  have hanchor : (if dayStart then Sql.Expr.call .dateTrunc [.text "DAY", .now] else .now).value
      g f = .moment (if dayStart then g.startOfDay g.now else g.now) := by
    cases dayStart <;> rfl
  cases offset with
  | none => exact hanchor
  | some offset =>
    obtain ⟨amount, unit⟩ := offset
    simp only [Sql.momentOf, RelativeTime.moment, Sql.Expr.value, hanchor]
    split
    · next hneg =>
      simp only [Sql.computed, Value.moment.injEq]
      have : (amount.natAbs : Int) = -amount := by omega
      rw [this, Int.neg_mul]
      omega
    · next hpos =>
      simp only [Sql.computed, Value.moment.injEq]
      have : (amount.natAbs : Int) = amount := by omega
      rw [this]

theorem pipeline_momentOf (time : RelativeTime) :
    (Pipeline.momentOf time).value? g f = some (.moment (time.moment g)) := by
  obtain ⟨dayStart, offset⟩ := time
  cases offset with
  | none => cases dayStart <;> rfl
  | some offset => cases dayStart <;> rfl

/-- Both stores find a part of a text alike, and no moment is written with a dollar sign. -/
structure Engine.Alike (g : Engine) : Prop where
  contains : ∀ text s, g.like (Sql.containing text) s =
    g.regexAnyCase (Text.escape Text.regexSpecial text) s
  dollar : ∀ text : String, text.toList.head? = some '$' → g.moment? (.text text) = none

/-- A test of a column that was read from a key, stored as it is read, against texts. -/
structure Predicate.Plain (r : Sql.Reader) (t : Predicate) : Prop where
  texts : t.OnTexts
  stored : ∀ c, t.column? = some c → r.ReadsStored c
  named : ∀ c, t.column? = some c → ∃ key, c = Column.ofKey key

/-- A comparison of moments selects a row if both are known. -/
theorem compared_moments (hv : v = .null ∨ ∃ s, v = .text s) (o : Option Int) :
    Sql.compared g op (Sql.casted g .timestamp v) (o.elim .null .moment) = some true ↔
      ∃ s a b, v = .text s ∧ g.moment? (.text s) = some a ∧ o = some b ∧ op.holds a b = true := by
  cases o with
  | none => simp
  | some b =>
    rcases hv with rfl | ⟨s, rfl⟩
    · simp [Sql.casted]
    · cases hm : g.moment? (.text s) with
      | none => simp [Sql.casted, hm]
      | some a => simp [Sql.casted, hm]

/-- A comparison of moments matches a document if both are known, or if the first is missing and
what is missing comes first. -/
theorem matched_moments (hv : v = .null ∨ ∃ s, v = .text s) (o : Option Int) :
    ((Pipeline.dated? g v).bind fun a => (o.map Value.moment).bind fun b =>
        (Pipeline.compared? op a b).map Value.bool).any Pipeline.isTrue = true ↔
      (∃ s a b, v = .text s ∧ g.moment? (.text s) = some a ∧ o = some b ∧ op.holds a b = true) ∨
        (v = .null ∧ Predicate.NullFirst op ∧ o.isSome = true) := by
  cases o with
  | none => simp
  | some b =>
    rcases hv with rfl | ⟨s, rfl⟩
    · cases op <;>
        simp [Pipeline.dated?, Pipeline.compared?, Pipeline.rank, Pipeline.isTrue,
          Comparison.holds, Predicate.NullFirst]
    · cases hm : g.moment? (.text s) with
      | none => simp [Pipeline.dated?, hm]
      | some a =>
        simp [Pipeline.dated?, Pipeline.compared?, Pipeline.rank, Pipeline.isTrue, hm,
          Value.ordered?]

/-- A test selects the rows that have what it asks for. -/
theorem selects_iff_asks (hu : r.unwind = none) (hf : f.OnlyTexts) (hg : g.Alike)
    (ht : t.isTest = true) (hplain : t.Plain r) (h : r.filter t = .ok e) :
    e.Selects g f ↔ t.Asks g f := by
  have stored : ∀ {c read}, t.column? = some c → r.tested c = .ok read → read.value g f = f c :=
    fun hc hr => value_readsStored hu hf (hplain.stored _ hc) hr
  cases t with
  | isNull c =>
    obtain ⟨read, hr, rfl⟩ := bind_pure_ok.mp h
    simp [Sql.Expr.Selects, Sql.Expr.value, stored rfl hr, Predicate.Asks, Value.isNull]
  | isNotNull c =>
    obtain ⟨read, hr, rfl⟩ := bind_pure_ok.mp h
    simp [Sql.Expr.Selects, Sql.Expr.value, stored rfl hr, Predicate.Asks, Value.isNull]
  | compare c op v =>
    obtain ⟨read, partition, hr, hpart, rfl⟩ := Sql.Reader.filter_compare h
    obtain ⟨t, rfl⟩ := hplain.texts
    rw [Sql.Reader.comparePartition, if_pos (by simp [(hplain.stored c rfl).1])] at hpart
    obtain rfl := Except.ok.inj hpart
    rw [Sql.withPartition, Sql.Expr.selects_compare, stored rfl hr, Predicate.Asks]
    rcases hf c with hv | ⟨s, hv⟩ <;> simp [Sql.Expr.value, hv, Value.ordered?]
  | regex c pattern =>
    obtain ⟨read, hr, rfl⟩ := bind_pure_ok.mp h
    rw [Sql.Expr.Selects, Sql.Expr.value, Value.ofTruth_eq_true, stored rfl hr, Predicate.Asks]
    rcases hf c with hv | ⟨s, hv⟩ <;> simp [hv, Sql.onText]
  | contains c text negated =>
    obtain ⟨read, hr, rfl⟩ := bind_pure_ok.mp h
    rw [Sql.Expr.Selects, Sql.Expr.value, Value.ofTruth_eq_true, stored rfl hr, Predicate.Asks]
    rcases hf c with hv | ⟨s, hv⟩ <;> cases negated <;>
      simp [hv, Sql.onText, Sql.negatedIf, Truth.not, hg.contains]
  | oneOf c vs negated =>
    obtain ⟨ts, rfl⟩ := hplain.texts
    rw [Predicate.Asks, g.literals_text]
    cases negated with
    | false =>
      obtain ⟨read, partition, hr, hpart, rfl⟩ := Sql.Reader.filter_oneOf h
      rw [Sql.Reader.listPartition, if_pos (by simp [(hplain.stored c rfl).1])] at hpart
      obtain rfl := Except.ok.inj hpart
      rw [Sql.withPartition]
      rcases hf c with hv | ⟨s, hv⟩
      · simp [Sql.Expr.Selects, Sql.Expr.value, stored rfl hr, hv, Sql.listed, Sql.negatedIf,
          Value.ofTruth]
      · rw [Sql.Expr.selects_texts ((stored rfl hr).trans hv)]
        simp [hv]
    | true =>
      obtain ⟨read, hr, rfl⟩ := bind_pure_ok.mp h
      rcases hf c with hv | ⟨s, hv⟩
      · simp [Sql.Expr.Selects, Sql.Expr.value, stored rfl hr, hv, Sql.listed, Sql.negatedIf,
          Value.ofTruth, Truth.not]
      · rw [Sql.Expr.selects_not_texts ((stored rfl hr).trans hv)]
        simp [hv]
  | datetime c op text =>
    obtain ⟨read, hr, rfl⟩ := bind_pure_ok.mp h
    rw [Sql.Expr.selects_compare, Sql.Expr.value, stored rfl hr, Predicate.Asks]
    exact compared_moments (hf c) (g.moment? (.text text))
  | timediff c op time =>
    obtain ⟨read, hr, rfl⟩ := bind_pure_ok.mp h
    rw [Sql.Expr.selects_compare, Sql.Expr.value, stored rfl hr, sql_momentOf, Predicate.Asks]
    refine (compared_moments (hf c) (some (time.moment g))).trans ?_
    simp
  | never =>
    obtain rfl := Except.ok.inj h
    simp [Sql.Expr.Selects, Sql.Expr.value, Predicate.Asks]
  | and | or => simp [Predicate.isTest] at ht

theorem written_of_not_dollar {text : String} (h : text.toList.head? ≠ some '$') :
    Pipeline.written? g f text = some (.text text) := by
  rw [Pipeline.written?]
  split
  · next hd => simp [hd] at h
  · next hd => simp [hd] at h
  · rfl

/-- A test matches the documents that have what it asks for, and those where a missing moment meets
it. -/
theorem met_iff_asks (hf : f.OnlyTexts) (ht : t.isTest = true) (hplain : t.Plain r)
    (hrefers : ¬ t.Refers) :
    Pipeline.Match.Met g f t ↔ t.Asks g f ∨ t.MeetsNull g f := by
  have named : ∀ {c}, t.column? = some c → Column.ofKey c.key = c := by
    intro c hc
    obtain ⟨key, rfl⟩ := hplain.named c hc
    exact Column.ofKey_key key
  rw [Pipeline.Match.Met]
  cases t with
  | isNull c =>
    simp [Pipeline.Match.ofPredicate, Pipeline.Match.holds, Pipeline.FieldTest.meets, named rfl,
      Predicate.Asks, Predicate.MeetsNull, Value.isNull]
  | isNotNull c =>
    simp [Pipeline.Match.ofPredicate, Pipeline.Match.holds, Pipeline.FieldTest.meets, named rfl,
      Predicate.Asks, Predicate.MeetsNull, Value.isNull]
  | compare c op v =>
    obtain ⟨t, rfl⟩ := hplain.texts
    rcases hf c with hv | ⟨s, hv⟩ <;> cases op <;>
      simp [Pipeline.Match.ofPredicate, Pipeline.Match.holds, Pipeline.FieldTest.meets,
        Predicate.Asks, Predicate.MeetsNull, named rfl, hv, Value.ordered?, Engine.literal,
        Comparison.holds]
  | regex c pattern =>
    rcases hf c with hv | ⟨s, hv⟩ <;>
      simp [Pipeline.Match.ofPredicate, Pipeline.Match.holds, Pipeline.FieldTest.meets,
        Pipeline.FieldTest.meets.textMeets, Predicate.Asks, Predicate.MeetsNull, named rfl, hv]
  | contains c text negated =>
    rcases hf c with hv | ⟨s, hv⟩ <;> cases negated <;>
      simp [Pipeline.Match.ofPredicate, Pipeline.Match.holds, Pipeline.FieldTest.meets,
        Pipeline.FieldTest.meets.textMeets, Predicate.Asks, Predicate.MeetsNull, named rfl, hv]
  | oneOf c vs negated =>
    obtain ⟨ts, rfl⟩ := hplain.texts
    rcases hf c with hv | ⟨s, hv⟩ <;> cases negated <;>
      simp [Pipeline.Match.ofPredicate, Pipeline.Match.holds, Pipeline.FieldTest.meets,
        Predicate.Asks, Predicate.MeetsNull, named rfl, hv, Engine.literal]
  | datetime c op text =>
    have htext : (Pipeline.Expr.toDate (.text text)).value? g f =
        (g.moment? (.text text)).map .moment := by
      rw [Pipeline.Expr.value?, Pipeline.Expr.value?, written_of_not_dollar hrefers]
      rfl
    rw [Predicate.Asks, Predicate.MeetsNull, Pipeline.Match.ofPredicate, Pipeline.Match.holds,
      Pipeline.Expr.value?, htext]
    simp only [Pipeline.Expr.value?, Pipeline.dateOf, named rfl, Option.bind_some]
    exact matched_moments (hf c) (g.moment? (.text text))
  | timediff c op time =>
    rw [Predicate.Asks, Predicate.MeetsNull, Pipeline.Match.ofPredicate, Pipeline.Match.holds]
    simp only [Pipeline.Expr.value?, Pipeline.dateOf, named rfl, Option.bind_some,
      pipeline_momentOf]
    refine (matched_moments (hf c) (some (time.moment g))).trans ?_
    simp
  | never => simp [Pipeline.Match.ofPredicate, Pipeline.Match.holds, Pipeline.Expr.value?,
      Pipeline.isTrue, Predicate.Asks, Predicate.MeetsNull]
  | and | or => simp [Predicate.isTest] at ht

end
end CostQuery

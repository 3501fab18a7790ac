import CostQuery.Proofs.Filter.Meaning
import CostQuery.Proofs.Outcome
import CostQuery.Proofs.Store.Value
import CostQuery.Sql.Filter

/-! What a SQL expression gives in one row, and when a test selects the row. -/

namespace CostQuery.Sql

/-- Nothing is known of a comparison with null. -/
def compared (g : Engine) (op : Comparison) (a b : Value) : Truth :=
  if a.isNull || b.isNull then none
  else match Value.ordered? op a b with
    | some t => some t
    | none => g.mixed op a b

def listed (g : Engine) (v : Value) (items : List Value) : Truth :=
  if v.isNull then none else Truth.any (items.map (compared g .eq v))

def negatedIf (negated : Bool) (t : Truth) : Truth := if negated then t.not else t

def onText (v : Value) (test : String → Bool) : Truth :=
  match v with
  | .text s => some (test s)
  | _ => none

def called (g : Engine) : Function → List Value → Value
  | .substring, [.text s, .number start, .number count] =>
    .text (String.ofList ((s.toList.drop (start.num.toNat - 1)).take count.num.toNat))
  | .coalesce, [a, b] => if a.isNull then b else a
  | .nullif, [a, b] => if compared g .eq a b = some true then .null else a
  | .size, [.list n] => .number n
  | .dateTrunc, [.text "DAY", .moment t] => .moment (g.startOfDay t)
  | _, _ => .null

def casted (g : Engine) (type : ColumnType) (v : Value) : Value :=
  if v.isNull then .null
  else match type, v with
    | .string, .text s => .text s
    | .string, v => g.toText v
    | .decimal _ _, .number q => .number q
    | .decimal _ _, v => g.toDecimal v
    | .timestamp, v => (g.moment? v).elim .null .moment

def computed (op : Arithmetic) (a b : Value) : Value :=
  match op, a, b with
  | op, .number a, .number b => (Value.arithmetic? op a b).elim .null .number
  | .add, .moment t, .span s => .moment (t + s)
  | .subtract, .moment t, .span s => .moment (t - s)
  | _, _, _ => .null

namespace Expr

mutual

/-- Aggregates and windows give nothing in one row, and only stored columns have keys. -/
def value (g : Engine) (f : Fields) : Expr → Value
  | .column name => f ⟨name.text, none⟩
  | .subscript (.column name) key => f ⟨name.text, some key⟩
  | .literal l => g.literal l
  | .now => .moment g.now
  | .never => .bool false
  | .call function args => called g function (values g f args)
  | .cast e type => casted g type (value g f e)
  | .compare op a b => .ofTruth (compared g op (value g f a) (value g f b))
  | .arithmetic op a b => computed op (value g f a) (value g f b)
  | .isNull e negated => .bool ((value g f e).isNull != negated)
  | .oneOf e items negated =>
    .ofTruth (negatedIf negated (listed g (value g f e) (items.map g.literal)))
  | .ilike e pattern negated =>
    .ofTruth (negatedIf negated (onText (value g f e) (g.like pattern)))
  | .rlike e pattern => .ofTruth (onText (value g f e) (g.regex pattern))
  | .and parts => .ofTruth (Truth.all ((values g f parts).map Value.truth))
  | .or parts => .ofTruth (Truth.any ((values g f parts).map Value.truth))
  | .ifThenElse test yes no =>
    if value g f test = .bool true then value g f yes else value g f no
  | .interval amount unit => .span (amount * unit.micros)
  | .star | .today | .subscript _ _ | .over _ _ | .struct _ => .null

def values (g : Engine) (f : Fields) : List Expr → List Value
  | [] => []
  | e :: rest => value g f e :: values g f rest

end

/-- A row is selected where the test is true, and not where it is unknown. -/
def Selects (g : Engine) (f : Fields) (e : Expr) : Prop := e.value g f = .bool true

instance (g : Engine) (f : Fields) (e : Expr) : Decidable (e.Selects g f) :=
  inferInstanceAs (Decidable (e.value g f = .bool true))

variable {g : Engine} {f : Fields} {e : Expr} {es : List Expr}

theorem values_eq (es : List Expr) : values g f es = es.map (value g f) := by
  induction es with
  | nil => rfl
  | cons e rest ih => rw [values, ih, List.map_cons]

theorem selects_and : (and es).Selects g f ↔ ∀ e ∈ es, e.Selects g f := by
  rw [Selects, value, Value.ofTruth_eq_true, Truth.all_eq_true, values_eq]
  simp only [List.map_map, List.forall_mem_map, Function.comp_apply, Value.truth_eq_true]
  rfl

theorem selects_or : (or es).Selects g f ↔ ∃ e ∈ es, e.Selects g f := by
  rw [Selects, value, Value.ofTruth_eq_true, Truth.any_eq_true, values_eq]
  simp only [List.map_map, List.mem_map, exists_exists_and_eq_and, Function.comp_apply,
    Value.truth_eq_true]
  rfl

theorem ofName_ok {name : String} (h : ofName name = .ok e) :
    ∃ n : Name, n.text = name ∧ e = .column n := by
  rw [ofName, Name.ofText] at h
  split at h
  · exact ⟨⟨name, ‹_›⟩, rfl, (Except.ok.inj h).symm⟩
  · cases h

theorem selects_compare {op : Comparison} {a b : Expr} :
    (compare op a b).Selects g f ↔ compared g op (a.value g f) (b.value g f) = some true := by
  rw [Selects, value, Value.ofTruth_eq_true]

end Expr

@[simp] theorem compared_null_left (g : Engine) (op : Comparison) (v : Value) :
    compared g op .null v = none := rfl

@[simp] theorem compared_text (g : Engine) (op : Comparison) (s t : String) :
    compared g op (.text s) (.text t) = some (op.holds s t) := rfl

@[simp] theorem compared_moment (g : Engine) (op : Comparison) (s t : Int) :
    compared g op (.moment s) (.moment t) = some (op.holds s t) := rfl

@[simp] theorem compared_null_right (g : Engine) (op : Comparison) (v : Value) :
    compared g op v .null = none := by
  simp [compared]

/-- A text is listed if it is one of the texts. -/
theorem listed_text (g : Engine) (s : String) (ts : List String) :
    listed g (.text s) (ts.map .text) = some (decide (s ∈ ts)) := by
  rw [listed, if_neg (by simp), List.map_map]
  by_cases h : s ∈ ts
  · simp only [h, decide_true, Truth.any_eq_true, List.mem_map, exists_exists_and_eq_and]
    exact ⟨s, h, by simp [Comparison.holds]⟩
  · simp only [h, decide_false, Truth.any_eq_false, List.forall_mem_map]
    intro t ht
    have hne : s ≠ t := fun he => h (he ▸ ht)
    simp [Comparison.holds, hne]

theorem Expr.selects_texts {g : Engine} {f : Fields} {e : Expr} {s : String} {ts : List String}
    (h : e.value g f = .text s) : (oneOf e (ts.map .text) false).Selects g f ↔ s ∈ ts := by
  rw [Selects, value, Value.ofTruth_eq_true, h, g.literals_text, listed_text]
  simp [negatedIf]

theorem Expr.selects_not_texts {g : Engine} {f : Fields} {e : Expr} {s : String}
    {ts : List String} (h : e.value g f = .text s) :
    (oneOf e (ts.map .text) true).Selects g f ↔ s ∉ ts := by
  rw [Selects, value, Value.ofTruth_eq_true, h, g.literals_text, listed_text]
  simp [negatedIf, Truth.not]

/-! How predicates are compiled: what joins the tests is kept. -/

/-- It compiles the parts of a predicate one by one. -/
structure Joins (compile : Predicate → Compiled Expr) : Prop where
  and_ok : ∀ {parts e}, compile (.and parts) = .ok e ↔
    ∃ es, e = .and es ∧ List.Forall₂ (fun p e => compile p = .ok e) parts es
  or_ok : ∀ {parts e}, compile (.or parts) = .ok e ↔
    ∃ es, e = .or es ∧ List.Forall₂ (fun p e => compile p = .ok e) parts es

/-- The test compiles, to an expression that selects the row. -/
def Met (g : Engine) (f : Fields) (compile : Predicate → Compiled Expr) (t : Predicate) : Prop :=
  ∃ e, compile t = .ok e ∧ e.Selects g f

namespace Joins
variable {compile other : Predicate → Compiled Expr} {g : Engine} {f : Fields} {p : Predicate}
  {e : Expr}

/-- A compiled predicate selects a row exactly as its tests are met. -/
theorem selects_iff (hc : Joins compile) (he : compile p = .ok e) :
    e.Selects g f ↔ p.holds (Met g f compile) := by
  induction p using Predicate.of_parts generalizing e with
  | test p hp => simp [Predicate.holds_of_isTest hp, Met, he]
  | and parts ih =>
    obtain ⟨es, rfl, hes⟩ := hc.and_ok.mp he
    rw [Expr.selects_and, Predicate.holds_and]
    clear he
    induction hes with
    | nil => simp
    | cons h _ ih' =>
      rw [List.forall_mem_cons] at ih
      rw [List.forall_mem_cons, List.forall_mem_cons, ih.1 h, ih' ih.2]
  | or parts ih =>
    obtain ⟨es, rfl, hes⟩ := hc.or_ok.mp he
    rw [Expr.selects_or, Predicate.holds_or]
    clear he
    induction hes with
    | nil => simp
    | cons h _ ih' =>
      rw [List.forall_mem_cons] at ih
      rw [List.exists_mem_cons_iff, List.exists_mem_cons_iff, ih.1 h, ih' ih.2]

theorem exists_of_parts {parts : List Predicate} {es : List Expr}
    (hes : List.Forall₂ (fun p e => compile p = .ok e) parts es)
    (h : ∀ p ∈ parts, ∀ e, compile p = .ok e → ∃ e', other p = .ok e') :
    ∃ es', List.Forall₂ (fun p e => other p = .ok e) parts es' := by
  induction hes with
  | nil => exact ⟨[], .nil⟩
  | cons hp _ ih =>
    rw [List.forall_mem_cons] at h
    obtain ⟨e, he⟩ := h.1 _ hp
    obtain ⟨es, hes⟩ := ih h.2
    exact ⟨e :: es, .cons he hes⟩

/-- A predicate compiles if its tests do. -/
theorem exists_of_tests (hc : Joins compile) (ho : Joins other) (he : compile p = .ok e)
    (h : ∀ t ∈ p.tests, ∀ e, compile t = .ok e → ∃ e', other t = .ok e') :
    ∃ e', other p = .ok e' := by
  induction p using Predicate.of_parts generalizing e with
  | test p hp => exact h p (by simp [Predicate.tests_of_isTest hp]) e he
  | and parts ih =>
    obtain ⟨es, rfl, hes⟩ := hc.and_ok.mp he
    obtain ⟨es', hes'⟩ := exists_of_parts hes fun q hq e he =>
      ih q hq he fun t ht => h t (Predicate.mem_tests_and.mpr ⟨q, hq, ht⟩)
    exact ⟨_, ho.and_ok.mpr ⟨es', rfl, hes'⟩⟩
  | or parts ih =>
    obtain ⟨es, rfl, hes⟩ := hc.or_ok.mp he
    obtain ⟨es', hes'⟩ := exists_of_parts hes fun q hq e he =>
      ih q hq he fun t ht => h t (Predicate.mem_tests_or.mpr ⟨q, hq, ht⟩)
    exact ⟨_, ho.or_ok.mpr ⟨es', rfl, hes'⟩⟩

/-- The tests of a predicate that compiles compile too, and are in it in any way in which parts
are in what joins them. -/
theorem exists_test (hc : Joins compile) {R : Expr → Expr → Prop} (refl : ∀ e, R e e)
    (and : ∀ {e part parts}, part ∈ parts → R e part → R e (.and parts))
    (or : ∀ {e part parts}, part ∈ parts → R e part → R e (.or parts))
    (he : compile p = .ok e) {t : Predicate} (ht : t ∈ p.tests) :
    ∃ e', compile t = .ok e' ∧ R e' e := by
  induction p using Predicate.of_parts generalizing e with
  | test p hp =>
    rw [Predicate.tests_of_isTest hp, List.mem_singleton] at ht
    exact ⟨e, ht ▸ he, refl e⟩
  | and parts ih =>
    obtain ⟨q, hq, ht⟩ := Predicate.mem_tests_and.mp ht
    obtain ⟨es, rfl, hes⟩ := hc.and_ok.mp he
    obtain ⟨part, hpart, he⟩ := exists_of_forall₂ hes hq
    obtain ⟨e', he', hwithin⟩ := ih q hq he ht
    exact ⟨e', he', and hpart hwithin⟩
  | or parts ih =>
    obtain ⟨q, hq, ht⟩ := Predicate.mem_tests_or.mp ht
    obtain ⟨es, rfl, hes⟩ := hc.or_ok.mp he
    obtain ⟨part, hpart, he⟩ := exists_of_forall₂ hes hq
    obtain ⟨e', he', hwithin⟩ := ih q hq he ht
    exact ⟨e', he', or hpart hwithin⟩

theorem test_ok (hc : Joins compile) (he : compile p = .ok e) {t : Predicate}
    (ht : t ∈ p.tests) : ∃ e', compile t = .ok e' := by
  obtain ⟨e', he', -⟩ := hc.exists_test (R := fun _ _ => True) (fun _ => trivial)
    (fun _ _ => trivial) (fun _ _ => trivial) he ht
  exact ⟨e', he'⟩

end Joins

/-- Going through a list of parts, in order. -/
theorem each_ok {compile : Predicate → Compiled Expr}
    {each : List Predicate → Compiled (List Expr)} (hnil : each [] = .ok [])
    (hcons : ∀ p rest, each (p :: rest) = do return (← compile p) :: (← each rest))
    {parts : List Predicate} {es : List Expr} :
    each parts = .ok es ↔ List.Forall₂ (fun p e => compile p = .ok e) parts es := by
  induction parts generalizing es with
  | nil => cases es <;> simp [hnil]
  | cons p rest ih =>
    rw [hcons, bind_bind_pure_ok, List.forall₂_cons_left_iff]
    simp only [ih, eq_comm]

theorem Joins.of_each {compile : Predicate → Compiled Expr}
    {each : List Predicate → Compiled (List Expr)} (hnil : each [] = .ok [])
    (hcons : ∀ p rest, each (p :: rest) = do return (← compile p) :: (← each rest))
    (hand : ∀ parts, compile (.and parts) = do return .and (← each parts))
    (hor : ∀ parts, compile (.or parts) = do return .or (← each parts)) : Joins compile where
  and_ok {parts e} := by
    simp only [hand, bind_pure_ok, each_ok hnil hcons]
    exact exists_congr fun es => and_comm.trans (and_congr_left' eq_comm)
  or_ok {parts e} := by
    simp only [hor, bind_pure_ok, each_ok hnil hcons]
    exact exists_congr fun es => and_comm.trans (and_congr_left' eq_comm)

theorem Reader.filter_joins (r : Reader) : Joins r.filter :=
  .of_each rfl (fun _ _ => rfl) (fun _ => rfl) (fun _ => rfl)

/-! How columns are read. -/

section
variable {c : Column} {e : Expr} {key : String}

theorem stored_whole (hsub : c.sub = none) (h : stored c = .ok e) : ∃ n, e = .column n := by
  rw [stored, hsub] at h
  obtain ⟨column, hn, h⟩ := bind_ok.mp h
  obtain ⟨n, -, rfl⟩ := Expr.ofName_ok hn
  exact ⟨n, (pure_ok.mp h).symm⟩

theorem stored_key (hsub : c.sub = some key) (h : stored c = .ok e) :
    ∃ n, e = .subscript (.column n) key := by
  rw [stored, hsub] at h
  obtain ⟨column, hn, h⟩ := bind_ok.mp h
  obtain ⟨n, -, rfl⟩ := Expr.ofName_ok hn
  exact ⟨n, (pure_ok.mp h).symm⟩

end

namespace Reader
variable {r : Reader} {c above : Column} {e : Expr} {zero : Bool}

/-- The key that the column is read at, inside a map or inside the items that are spread. -/
def keyWithin? (r : Reader) (c : Column) : Option String :=
  match r.unwind with
  | some above => if c.isUnder above then keyBeneath? c above else c.sub
  | none => c.sub

/-- What a column is read as, at a key or at none. -/
inductive ReadAs (r : Reader) (c : Column) (zero : Bool) : Option String → Expr → Prop
  | whole (n : Name) : ReadAs r c zero none (.column n)
  | date {p : Precision} {e : Expr} (bucket : r.dateBucket p = .ok e) : ReadAs r c zero none e
  | typed (n : Name) (key : String) :
    ReadAs r c zero (some key) (r.typed c.root (.subscript (.column n) key) zero)

theorem plain_readAs (h : r.plain c zero = .ok e) : r.ReadAs c zero c.sub e := by
  rw [plain] at h
  split at h
  · next p hsub _ => exact hsub ▸ .date h
  · next hsub _ =>
    obtain ⟨n, rfl⟩ := stored_whole hsub h
    exact hsub ▸ .whole n
  · next key hsub =>
    obtain ⟨value, hv, rfl⟩ := bind_pure_ok.mp h
    obtain ⟨n, rfl⟩ := stored_key hsub hv
    exact hsub ▸ .typed n key

theorem unwound_readAs : r.ReadAs c zero (keyBeneath? c above) (r.unwound c above zero) := by
  rw [unwound]
  cases keyBeneath? c above with
  | none => exact .whole unwoundName
  | some key => exact .typed unwoundName key

theorem read_readAs (h : r.read c zero = .ok e) : r.ReadAs c zero (r.keyWithin? c) e := by
  rw [read] at h
  rw [keyWithin?]
  cases hu : r.unwind with
  | none =>
    rw [hu] at h
    exact plain_readAs h
  | some above =>
    simp only [hu] at h ⊢
    by_cases hunder : c.isUnder above = true
    · rw [if_pos hunder] at h ⊢
      exact Except.ok.inj h ▸ unwound_readAs
    · rw [if_neg hunder] at h ⊢
      exact plain_readAs h

theorem filter_compare {op : Comparison} {value : Literal}
    (h : r.filter (.compare c op value) = .ok e) :
    ∃ read partition, r.tested c = .ok read ∧ r.comparePartition c op value = .ok partition ∧
      e = withPartition (.compare op read (.literal value)) partition := by
  obtain ⟨read, partition, hc, hp, he⟩ := bind_bind_pure_ok.mp h
  exact ⟨read, partition, hc, hp, he.symm⟩

theorem filter_oneOf {values : List Literal} (h : r.filter (.oneOf c values false) = .ok e) :
    ∃ read partition, r.tested c = .ok read ∧ r.listPartition c values = .ok partition ∧
      e = withPartition (.oneOf read values false) partition := by
  obtain ⟨read, partition, hc, hp, he⟩ := bind_bind_pure_ok.mp h
  exact ⟨read, partition, hc, hp, he.symm⟩

end Reader
end CostQuery.Sql

import CostQuery.Proofs.Filter.Meaning
import CostQuery.Proofs.Outcome
import CostQuery.Proofs.Plan.Sources
import CostQuery.Sql.Analyze

/-! What SQL is refused for: a stored name that is no identifier, and nothing else. -/

namespace CostQuery.Sql

/-- An identifier, or one of the names. -/
def Known (names : List String) (name : String) : Prop :=
  isName name.toList = true ∨ name ∈ names

/-- Every column is known by its root. -/
def KnowsAll (names : List String) (columns : List Column) : Prop :=
  ∀ c ∈ columns, Known names c.root

def RefusesOnly {α : Type} (names : List String) (x : Compiled α) : Prop :=
  ∀ fault, x = .error fault →
    ∃ name ∈ names, isName name.toList = false ∧ fault = .invalidIdentifier name

variable {α β : Type} {names : List String} {columns : List Column} {name : String} {c : Column}

namespace RefusesOnly
variable {x : Compiled α}

theorem ok (a : α) : RefusesOnly names (.ok a) := fun _ h => nomatch h

theorem bind (hx : RefusesOnly names x) {k : α → Compiled β}
    (hk : ∀ a, x = .ok a → RefusesOnly names (k a)) : RefusesOnly names (x >>= k) := by
  cases x with
  | error fault =>
    intro fault' h
    exact hx fault' (congrArg Except.error (Except.error.inj h))
  | ok a => exact hk a rfl

theorem bind_pure (hx : RefusesOnly names x) (k : α → β) :
    RefusesOnly names (do return k (← x)) :=
  hx.bind fun a _ => .ok (k a)

theorem map (hx : RefusesOnly names x) (k : α → β) : RefusesOnly names (x.map k) := by
  cases x with
  | error fault => exact fun fault' h => hx fault' (congrArg Except.error (Except.error.inj h))
  | ok a => exact .ok _

theorem mapM {as : List α} {f : α → Compiled β} (h : ∀ a ∈ as, RefusesOnly names (f a)) :
    RefusesOnly names (as.mapM f) := by
  induction as with
  | nil => exact .ok _
  | cons a as ih =>
    obtain ⟨ha, has⟩ := List.forall_mem_cons.mp h
    rw [List.mapM_cons]
    exact ha.bind fun b _ => (ih has).bind_pure fun bs => b :: bs

theorem option_mapM {a? : Option α} {f : α → Compiled β} (h : ∀ a ∈ a?, RefusesOnly names (f a)) :
    RefusesOnly names (a?.mapM f) := by
  cases a? with
  | none => exact .ok _
  | some a => exact (h a rfl).map some

end RefusesOnly

/-! Names. -/

theorem refuses_ofText (h : Known names name) : RefusesOnly names (Name.ofText name) := by
  rw [Name.ofText]
  split
  · exact .ok _
  · next hname =>
    intro fault hfault
    exact ⟨name, h.resolve_left hname, Bool.not_eq_true _ ▸ hname, (Except.error.inj hfault).symm⟩

theorem refuses_ofName (h : Known names name) : RefusesOnly names (Expr.ofName name) :=
  (refuses_ofText h).map Expr.column

theorem refuses_tableName {text : String}
    (h : ∀ part ∈ dotParts text.toList, Known names (String.ofList part)) :
    RefusesOnly names (tableName text) :=
  .mapM fun part hpart => refuses_ofText (h part hpart)

/-- What is read under a known name is refused only for its own reasons. -/
theorem refuses_named {x : Compiled Expr} (hx : RefusesOnly names x) (h : Known names name) :
    RefusesOnly names (do named (← x) name) :=
  hx.bind fun e _ => (refuses_ofText h).bind_pure fun n => (⟨e, some n⟩ : Item)

/-- Whatever its name, a column of a plan has an identifier. -/
theorem isName_ofName (name : String) : isName (Alias.ofName name).toList = true := by
  have hword : ∀ c ∈ Alias.letters name, isNameChar c = true :=
    fun _ hc => Alias.isWordChar_of_mem_letters hc
  rw [Alias.toList_ofName]
  cases hletters : Alias.letters name with
  | nil => decide
  | cons c rest =>
    rw [hletters] at hword
    by_cases hdigit : c.isDigit = true
    · rw [Alias.guardChars, if_pos hdigit, isName, Bool.and_eq_true]
      exact ⟨by decide, List.all_eq_true.mpr hword⟩
    · rw [Alias.guardChars, if_neg hdigit, isName, Bool.and_eq_true]
      refine ⟨?_, List.all_eq_true.mpr fun c hc => hword c (List.mem_cons_of_mem _ hc)⟩
      simpa [isNameStart, isNameChar, Char.isAlphanum, hdigit] using hword c List.mem_cons_self

/-! Columns of records. -/

theorem refuses_stored (h : Known names c.root) : RefusesOnly names (stored c) :=
  (refuses_ofName h).bind fun _ _ => by
    cases c.sub <;> exact .ok _

/-- Its own columns, and the list it spreads, are known. -/
structure Reader.Knows (r : Reader) (names : List String) : Prop where
  table : ∀ part ∈ dotParts r.warehouse.table.toList, Known names (String.ofList part)
  billedAt : Known names r.warehouse.billedAtColumn
  partition : Known names r.warehouse.partitionColumn
  unwind : ∀ c ∈ r.unwind, Known names c.root

namespace Reader
variable {r : Reader}

theorem Knows.refuses_dateBucket (h : r.Knows names) (p : Precision) :
    RefusesOnly names (r.dateBucket p) :=
  (refuses_ofName h.billedAt).bind_pure _

theorem Knows.refuses_explode (h : r.Knows names) : RefusesOnly names r.explode := by
  rw [explode]
  split
  · exact .ok none
  · next c hc => exact (refuses_stored (h.unwind c hc)).map some

theorem Knows.refuses_read (h : r.Knows names) (hc : Known names c.root) (zero : Bool) :
    RefusesOnly names (r.read c zero) := by
  have hplain : RefusesOnly names (r.plain c zero) := by
    rw [plain]
    split
    · exact h.refuses_dateBucket _
    · exact refuses_stored hc
    · exact (refuses_stored hc).bind_pure _
  rw [read]
  split
  · split
    · exact .ok _
    · exact hplain
  · exact hplain

theorem Knows.refuses_comparePartition (h : r.Knows names) (c : Column) (op : Comparison)
    (value : Literal) : RefusesOnly names (r.comparePartition c op value) := by
  rw [comparePartition]
  split
  · exact .ok none
  · split
    · exact .ok none
    · exact (refuses_ofName h.partition).map _

theorem Knows.refuses_listPartition (h : r.Knows names) (c : Column) (values : List Literal) :
    RefusesOnly names (r.listPartition c values) := by
  rw [listPartition]
  split
  · exact .ok none
  · split
    · exact .ok none
    · exact (refuses_ofName h.partition).map _

/-! Predicates. -/

theorem filters_eq (r : Reader) (ps : List Predicate) : r.filters ps = ps.mapM r.filter := by
  induction ps with
  | nil => rfl
  | cons p rest ih => rw [filters, ih, List.mapM_cons]

theorem Knows.refuses_test (h : r.Knows names) {p : Predicate} (hp : p.isTest = true)
    (hc : ∀ c ∈ p.column?, Known names c.root) : RefusesOnly names (r.filter p) := by
  have htested {c : Column} (hpc : p.column? = some c) : RefusesOnly names (r.tested c) :=
    h.refuses_read (hc c hpc) false
  cases p with
  | isNull | isNotNull | regex | contains | datetime | timediff =>
    rw [filter]
    exact (htested rfl).bind_pure _
  | compare c op value =>
    rw [filter]
    exact (htested rfl).bind fun _ _ => (h.refuses_comparePartition c op value).bind_pure _
  | oneOf c values negated =>
    cases negated with
    | true =>
      rw [filter]
      exact (htested rfl).bind_pure _
    | false =>
      rw [filter]
      exact (htested rfl).bind fun _ _ => (h.refuses_listPartition c values).bind_pure _
  | never =>
    rw [filter]
    exact .ok _
  | and | or => cases hp

theorem Knows.refuses_filter (h : r.Knows names) {p : Predicate}
    (hp : ∀ t ∈ p.tests, ∀ c ∈ t.column?, Known names c.root) : RefusesOnly names (r.filter p) := by
  induction p using Predicate.of_parts with
  | test p ht => exact h.refuses_test ht (hp p (by simp [Predicate.tests_of_isTest ht]))
  | and parts ih =>
    rw [filter, filters_eq]
    exact (RefusesOnly.mapM fun p hmem =>
      ih p hmem fun t ht => hp t (Predicate.mem_tests_and.mpr ⟨p, hmem, ht⟩)).bind_pure _
  | or parts ih =>
    rw [filter, filters_eq]
    exact (RefusesOnly.mapM fun p hmem =>
      ih p hmem fun t ht => hp t (Predicate.mem_tests_or.mpr ⟨p, hmem, ht⟩)).bind_pure _

/-! Computed columns, keys and aggregates. -/

theorem computedAll_eq (r : Reader) (es : List Computed) :
    r.computedAll es = es.mapM r.computed := by
  induction es with
  | nil => rfl
  | cons e rest ih => rw [computedAll, ih, List.mapM_cons]

theorem Knows.refuses_computed (h : r.Knows names) {e : Computed} (he : e.Filled)
    (hc : ∀ c ∈ e.columns, Known names c.root) : RefusesOnly names (r.computed e) := by
  induction he with
  | column c =>
    rw [computed]
    exact h.refuses_read (hc c (List.mem_singleton_self c)) true
  | literal =>
    rw [computed]
    exact .ok _
  | size c =>
    rw [computed]
    exact (h.refuses_read (hc c (List.mem_singleton_self c)) true).bind_pure _
  | @arithmetic op operands nonempty _ ih =>
    rw [computed, computedAll_eq]
    refine (RefusesOnly.mapM fun e he => ih e he fun c hmem =>
      hc c (Computed.columns_subset_arithmetic he hmem)).bind fun xs hxs => ?_
    cases xs with
    | nil => exact absurd (List.forall₂_nil_right_iff.mp (mapM_ok hxs)) nonempty
    | cons first rest => exact .ok _

theorem Knows.refuses_keyItem (h : r.Knows names) (hcolumns : KnowsAll names columns)
    {k : GroupKey} (hk : k.source.Reads columns) (hident : Known names k.ident) :
    RefusesOnly names (r.keyItem k) := by
  refine refuses_named ?_ hident
  obtain ⟨ident, source⟩ := k
  cases source with
  | column c => exact h.refuses_read (hcolumns c hk) true
  | bucket p => exact h.refuses_dateBucket p
  | computed e => exact h.refuses_computed hk.1 fun c hc => hcolumns c (hk.2 hc)

theorem Knows.refuses_fieldItem (h : r.Knows names) (hcolumns : KnowsAll names columns)
    {f : AggregateField} (hf : f.Reads columns) (hident : Known names f.ident) :
    RefusesOnly names (r.fieldItem f) := by
  refine refuses_named ?_ hident
  obtain ⟨ident, aggregate, input, hidden⟩ := f
  cases input with
  | rows =>
    obtain rfl : aggregate = .count := hf.counts rfl
    exact .ok _
  | column c =>
    exact (h.refuses_read (hcolumns c (hf.input (List.mem_singleton_self c))) true).bind_pure _
  | slots slots =>
    exact (RefusesOnly.mapM fun s hs => (h.refuses_read
      (hcolumns s.2 (hf.input (List.mem_map_of_mem hs))) true).bind_pure _).bind_pure _

end Reader
end CostQuery.Sql

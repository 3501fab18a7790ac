import CostQuery.Proofs.Pipeline.Names
import CostQuery.Proofs.Plan.Kept
import CostQuery.Proofs.Sql.Compile

/-! What a pipeline refers to. A dollar sign stands before every reference; a second one, from the
name of a column, makes it a variable of the store. -/

namespace CostQuery

theorem hasSigil_of_isName {name : String} (h : Sql.isName name.toList = true) :
    hasSigil name = false := by
  cases hname : name.toList with
  | nil => simp [hasSigil, hname]
  | cons c rest =>
    rw [hname, Sql.isName, Bool.and_eq_true] at h
    have hc : c ≠ '$' := by
      rintro rfl
      exact absurd h.1 (by decide)
    simpa [hasSigil, hname] using hc

namespace Pipeline
variable {w : Warehouse} {name : String} {e : Expr} {p t : Predicate}

mutual

/-- The paths that an expression refers to. -/
def Expr.paths : Expr → List String
  | .path path => [path]
  | .now | .null | .bool _ | .int _ | .text _ | .emptyList | .literal _ => []
  | .object members => memberPaths members
  | .ifNull a b | .compare _ a b | .arithmetic _ a b => a.paths ++ b.paths
  | .cond test yes no => test.paths ++ (yes.paths ++ no.paths)
  | .size e | .toDate e | .startOfDay e | .dateAdd e _ _ => e.paths

def memberPaths : List (String × Expr) → List String
  | [] => []
  | (_, e) :: rest => e.paths ++ memberPaths rest

end

def Match.expr? : Match → Option Expr
  | .expr e => some e
  | _ => none

def Match.paths (m : Match) : List String := (m.leaves.filterMap expr?).flatMap Expr.paths

def Accumulator.input : Accumulator → Expr
  | .sum e | .avg e | .max e | .min e | .push e | .addToSet e => e

def Shown.paths : Shown → List String
  | .drop | .keep => []
  | .expr e => e.paths

namespace Stage

def paths : Stage → List String
  | .unwind path => [path]
  | .match test => test.paths
  | .group key accumulators =>
    key.flatMap (·.2.paths) ++ accumulators.flatMap (·.2.input.paths)
  | .project members => members.flatMap (·.2.paths)
  | .sort _ | .skip _ | .limit _ => []

/-- The texts that stand for values of the document. -/
def references (s : Stage) : List String := s.paths.map ("$" ++ ·)

/-- Dollar signs begin operators in a test, never its columns, and one stands before the name that
is referred to. -/
structure Guarded (s : Stage) : Prop where
  operators : ∀ test, s = .match test → ∀ name ∈ test.toJson.names, hasSigil name = true →
    name ∈ filterOperators ∧ name ∉ test.keys
  references : ∀ ref ∈ s.references, ∃ name, ref = "$" ++ name ∧ hasSigil name = false

end Stage

/-- Names without a dollar sign before them. -/
def Bare (names : List String) : Prop := ∀ name ∈ names, hasSigil name = false

theorem bare_append {names names' : List String} :
    Bare (names ++ names') ↔ Bare names ∧ Bare names' := List.forall_mem_append

theorem bare_singleton : Bare [name] ↔ hasSigil name = false := List.forall_mem_singleton

theorem bare_nil : Bare [] := nofun

theorem bare_flatMap {α : Type} {f : α → List String} {as : List α} :
    Bare (as.flatMap f) ↔ ∀ a ∈ as, Bare (f a) := List.forall_mem_flatMap

theorem hasSigil_append {mark : String} {c : Char} {rest : List Char}
    (hmark : mark.toList = c :: rest) (hc : c ≠ '$') : hasSigil (mark ++ name) = false := by
  simpa [hasSigil, hmark] using hc

namespace Stage
variable {s : Stage}

theorem references_iff :
    (∀ ref ∈ s.references, ∃ name, ref = "$" ++ name ∧ hasSigil name = false) ↔ Bare s.paths := by
  rw [references, List.forall_mem_map]
  refine forall₂_congr fun path _ => ⟨fun ⟨name, heq, hname⟩ => ?_, fun h => ⟨path, rfl, h⟩⟩
  rw [← String.toList_inj, String.toList_append, String.toList_append] at heq
  rwa [String.toList_inj.mp (List.append_cancel_left heq)]

theorem guarded_iff (h : ∀ test, s ≠ .match test) : s.Guarded ↔ Bare s.paths :=
  ⟨fun hs => references_iff.mp hs.references,
    fun hs => ⟨fun test htest => absurd htest (h test), references_iff.mpr hs⟩⟩

theorem guarded_group {key : List (String × Expr)} {accumulators : List (String × Accumulator)} :
    (group key accumulators).Guarded ↔ Bare (key.flatMap (·.2.paths)) ∧
      Bare (accumulators.flatMap (·.2.input.paths)) :=
  (guarded_iff (s := group key accumulators) nofun).trans bare_append

theorem guarded_project {members : List (String × Shown)} :
    (project members).Guarded ↔ Bare (members.flatMap (·.2.paths)) := guarded_iff nofun

end Stage

/-! Computed columns. -/

theorem memberPaths_eq (members : List (String × Expr)) :
    memberPaths members = members.flatMap (·.2.paths) := by
  induction members with
  | nil => rfl
  | cons m rest ih => rw [memberPaths, ih, List.flatMap_cons]

theorem paths_value {c : Column} : (value w c).paths = [c.key] := by
  rw [value]
  split <;> rfl

/-- A divisor is referred to twice. -/
theorem bare_applied {op : Arithmetic} {left right : Expr} :
    Bare (applied op left right).paths ↔ Bare left.paths ∧ Bare right.paths := by
  cases op <;> simp [applied, Expr.paths, bare_append]

theorem bare_foldl {op : Arithmetic} {first : Expr} {rest : List Expr} :
    Bare (rest.foldl (applied op) first).paths ↔ ∀ e ∈ first :: rest, Bare e.paths := by
  induction rest generalizing first with
  | nil => simp
  | cons e rest ih =>
    rw [List.foldl_cons, ih, List.forall_mem_cons, bare_applied, List.forall_mem_cons,
      List.forall_mem_cons, and_assoc]

theorem bare_chained {op : Arithmetic} {operands : List Expr} (h : chained op operands = .ok e) :
    Bare e.paths ↔ ∀ e' ∈ operands, Bare e'.paths := by
  cases operands with
  | nil => cases h
  | cons first rest =>
    obtain rfl := Except.ok.inj h
    exact bare_foldl

theorem bare_computed {c : Computed} (hc : c.Filled) (h : computed w c = .ok e) :
    Bare e.paths ↔ Bare (c.columns.map Column.key) := by
  induction hc generalizing e with
  | column c =>
    obtain rfl := Except.ok.inj h
    rw [paths_value]
    rfl
  | literal value =>
    obtain rfl := Except.ok.inj h
    rfl
  | size c =>
    obtain rfl := Except.ok.inj h
    rfl
  | @arithmetic op operands _ _ ih =>
    rw [computed, computedAll_eq] at h
    obtain ⟨es, hes, h⟩ := bind_ok.mp h
    rw [bare_chained h, Computed.columns, Computed.columnsOfAll_eq, List.map_flatMap, bare_flatMap]
    exact forall_iff_of_mapM_ok hes fun c hc e he => ih c hc he

/-! Groups. -/

end Pipeline

def KeySource.columns : KeySource → List Column
  | .column c => [c]
  | .bucket _ => []
  | .computed e => e.columns

theorem KeySource.Reads.columns_subset {columns : List Column} {source : KeySource}
    (h : source.Reads columns) : source.columns ⊆ columns := by
  cases source with
  | column c => exact List.cons_subset.mpr ⟨h, List.nil_subset _⟩
  | bucket => exact List.nil_subset _
  | computed e => exact h.2

/-- The columns that a stage reads from the rows. -/
def Stage.columns : Stage → List Column
  | .unwind path => [path]
  | .match p => p.tests.filterMap Predicate.column?
  | .group g => g.keys.flatMap (·.source.columns) ++ g.fields.flatMap (·.input.columns)
  | .facet _ | .sort _ | .skip _ | .limit _ | .project _ => []

def AnalyzePlan.columns (p : AnalyzePlan) : List Column := p.stages.flatMap Stage.columns

namespace Pipeline
variable {w : Warehouse} {name : String} {e : Expr} {p t : Predicate} {columns : List Column}

theorem bare_precision (p : Precision) : hasSigil p.column = false := by
  cases p <;> decide

theorem bare_keyExpr {k : GroupKey} (hk : k.source.Reads columns) (h : keyExpr w k = .ok e) :
    Bare e.paths ↔ Bare (k.source.columns.map Column.key) := by
  obtain ⟨ident, source⟩ := k
  cases source with
  | column c =>
    obtain rfl := Except.ok.inj h
    rw [paths_value]
    rfl
  | bucket p =>
    obtain rfl := Except.ok.inj h
    exact iff_of_true (bare_singleton.mpr (bare_precision p)) bare_nil
  | computed c => exact bare_computed hk.1 h

theorem paths_accumulated {aggregate : Aggregate} :
    (accumulated aggregate e).input.paths = e.paths := by
  cases aggregate <;> simp [accumulated, Accumulator.input, known, Expr.paths]

theorem bare_accumulator {f : AggregateField} {a : Accumulator} (h : accumulator w f = .ok a) :
    Bare a.input.paths ↔ Bare (f.input.columns.map Column.key) := by
  obtain ⟨ident, aggregate, input, hidden⟩ := f
  cases input with
  | rows =>
    cases aggregate with
    | count =>
      obtain rfl := Except.ok.inj h
      rfl
    | sum | average | max | min | push | addToSet => cases h
  | column c =>
    obtain rfl := Except.ok.inj h
    rw [paths_accumulated, paths_value]
    rfl
  | slots slots =>
    obtain rfl := Except.ok.inj h
    rw [paths_accumulated, Expr.paths, memberPaths_eq, List.flatMap_map]
    simp only [paths_value]
    rw [AggregateInput.columns, List.map_map, List.map_eq_flatMap]
    rfl

/-- What is lifted out of a key is beneath the key. -/
theorem bare_lifted (keys : List String) : Bare ((lifted keys).flatMap (·.2.paths)) := by
  rw [lifted, List.flatMap_cons, bare_append, List.flatMap_map, bare_flatMap]
  refine ⟨bare_nil, fun k _ => bare_singleton.mpr ?_⟩
  exact hasSigil_append (c := '_') rfl (by decide)

theorem bare_kept {α : Type} {f : α → String} {as : List α} :
    Bare ((as.map fun a => (f a, Shown.keep)).flatMap (·.2.paths)) := by
  rw [List.flatMap_map, bare_flatMap]
  exact fun _ _ => bare_nil

theorem bare_groupStages {g : Group} {out : List Stage}
    (hkeys : ∀ k ∈ g.keys, k.source.Reads columns) (h : groupStages w g = .ok out) :
    (∀ s ∈ out, s.Guarded) ↔ Bare ((CostQuery.Stage.group g).columns.map Column.key) := by
  simp only [groupStages, bind_ok, pure_ok] at h
  obtain ⟨key, hkey, accumulators, haccumulators, rfl⟩ := h
  have hkeyPaths : (∀ m ∈ key, Bare m.2.paths) ↔
      ∀ k ∈ g.keys, Bare (k.source.columns.map Column.key) :=
    forall_iff_of_mapM_ok hkey fun k hk m hm => by
      obtain ⟨e, he, rfl⟩ := bind_pure_ok.mp hm
      exact bare_keyExpr (hkeys k hk) he
  have hinputs : (∀ m ∈ accumulators, Bare m.2.input.paths) ↔
      ∀ f ∈ g.fields, Bare (f.input.columns.map Column.key) :=
    forall_iff_of_mapM_ok haccumulators fun f _ m hm => by
      obtain ⟨a, ha, rfl⟩ := bind_pure_ok.mp hm
      exact bare_accumulator ha
  have hproject : (Stage.project (lifted (g.keys.map (·.ident)) ++
      g.fields.map fun f => (f.ident, .keep))).Guarded := by
    rw [Stage.guarded_project, List.flatMap_append, bare_append]
    exact ⟨bare_lifted _, bare_kept⟩
  have hcolumns : Bare ((CostQuery.Stage.group g).columns.map Column.key) ↔
      (∀ k ∈ g.keys, Bare (k.source.columns.map Column.key)) ∧
        ∀ f ∈ g.fields, Bare (f.input.columns.map Column.key) := by
    rw [CostQuery.Stage.columns, List.map_append, bare_append, List.map_flatMap, List.map_flatMap,
      bare_flatMap, bare_flatMap]
  rw [List.forall_mem_cons, List.forall_mem_singleton, and_iff_left hproject, Stage.guarded_group,
    bare_flatMap, bare_flatMap, hkeyPaths, hinputs, hcolumns]

/-- Identifiers of columns begin with a letter or an underscore. -/
theorem guarded_facetStages {f : Facet} (h : Sql.KnowsFacet [] f) :
    ∀ s ∈ facetStages f, s.Guarded := by
  have known : ∀ {ident}, Sql.Known [] ident → hasSigil ident = false := fun hident =>
    hasSigil_of_isName (hident.resolve_right List.not_mem_nil)
  have hkey : Bare ((f.partitionKeys.map fun k => (k, Expr.path k)).flatMap (·.2.paths)) := by
    rw [List.flatMap_map, bare_flatMap]
    exact fun k hk => bare_singleton.mpr (known (h.partitionKeys k hk))
  have htotals : Bare ((f.totals.flatMap totalAccumulators).flatMap (·.2.input.paths)) := by
    rw [List.flatMap_assoc, bare_flatMap]
    intro t ht
    have hreads := h.reads t ht
    obtain ⟨ident, total⟩ := t
    cases total with
    | sum a | min a | max a =>
      exact bare_singleton.mpr (known (hreads a (List.mem_singleton_self a)))
    | ratio a b =>
      have ha : hasSigil a = false := known (hreads a List.mem_cons_self)
      have hb : hasSigil b = false := known (hreads b (List.mem_cons_of_mem _ List.mem_cons_self))
      exact List.forall_mem_cons.mpr ⟨ha, bare_singleton.mpr hb⟩
  have harrays : Bare ((f.arrays.map fun ident => (ident, Accumulator.push
      (facetItem f.facetKeys ident))).flatMap (·.2.input.paths)) := by
    rw [List.flatMap_map, bare_flatMap]
    intro ident hident
    simp only [facetItem, Accumulator.input, Expr.paths, memberPaths_eq, List.flatMap_append,
      List.flatMap_map, bare_append, bare_flatMap, List.forall_mem_singleton, bare_singleton]
    exact ⟨fun k hk => known (h.facetKeys k hk), known (h.arrays ident hident)⟩
  have hshown : Bare ((f.totals.map totalShown).flatMap (·.2.paths)) := by
    rw [List.flatMap_map, bare_flatMap]
    intro t _
    obtain ⟨ident, total⟩ := t
    cases total with
    | sum | min | max => exact bare_nil
    | ratio =>
      have hnumerator : hasSigil (numerator ident) = false :=
        hasSigil_append (c := '_') rfl (by decide)
      have hdenominator : hasSigil (denominator ident) = false :=
        hasSigil_append (c := '_') rfl (by decide)
      simp [totalShown, Shown.paths, Expr.paths, Bare, hnumerator, hdenominator]
  rw [facetStages, List.forall_mem_cons, List.forall_mem_singleton, Stage.guarded_group,
    Stage.guarded_project]
  simp only [List.flatMap_append, bare_append]
  exact ⟨⟨hkey, htotals, harrays⟩, ⟨bare_lifted _, hshown⟩, bare_kept⟩

/-! Tests of documents. -/

namespace Match

/-- A test names its column as a field, or refers to it. -/
theorem bare_leaf (ht : t.isTest = true) :
    (∀ key ∈ (ofPredicate t).key?, hasSigil key = false) ∧
        (∀ e ∈ (ofPredicate t).expr?, Bare e.paths) ↔
      ∀ c ∈ t.column?, hasSigil c.key = false := by
  cases t with
  | isNull | isNotNull | regex =>
    simp [ofPredicate, key?, expr?, Predicate.column?]
  | compare c op => cases op <;> simp [ofPredicate, key?, expr?, Predicate.column?]
  | contains c text negated => cases negated <;> simp [ofPredicate, key?, expr?, Predicate.column?]
  | oneOf c values negated => cases negated <;> simp [ofPredicate, key?, expr?, Predicate.column?]
  | datetime c op text =>
    simp [ofPredicate, key?, expr?, Predicate.column?, dateOf, Expr.paths, bare_singleton]
  | timediff c op time =>
    obtain ⟨dayStart, offset⟩ := time
    cases dayStart <;> cases offset <;>
      simp [ofPredicate, key?, expr?, Predicate.column?, dateOf, momentOf, Expr.paths,
        bare_singleton]
  | never => simp [ofPredicate, key?, expr?, Predicate.column?, Expr.paths, bare_nil]
  | and | or => cases ht

theorem bare_ofPredicate (p : Predicate) :
    Bare (ofPredicate p).keys ∧ Bare (ofPredicate p).paths ↔
      Bare ((p.tests.filterMap Predicate.column?).map Column.key) := by
  have hkeys : Bare (ofPredicate p).keys ↔
      ∀ t ∈ p.tests, ∀ key ∈ (ofPredicate t).key?, hasSigil key = false := by
    rw [keys, leaves_ofPredicate, List.filterMap_map]
    exact List.forall_mem_filterMap
  have hpaths : Bare (ofPredicate p).paths ↔
      ∀ t ∈ p.tests, ∀ e ∈ (ofPredicate t).expr?, Bare e.paths := by
    rw [paths, bare_flatMap, leaves_ofPredicate, List.filterMap_map]
    exact List.forall_mem_filterMap
  have hcolumns : Bare ((p.tests.filterMap Predicate.column?).map Column.key) ↔
      ∀ t ∈ p.tests, ∀ c ∈ t.column?, hasSigil c.key = false := by
    rw [Bare, List.forall_mem_map]
    exact List.forall_mem_filterMap
  rw [hkeys, hpaths, hcolumns, ← forall₂_and]
  exact forall₂_congr fun t ht => bare_leaf (Predicate.isTest_of_mem_tests ht)

end Match

theorem guarded_match : (Stage.match (.ofPredicate p)).Guarded ↔
    Bare ((CostQuery.Stage.match p).columns.map Column.key) := by
  rw [CostQuery.Stage.columns, ← Match.bare_ofPredicate]
  constructor
  · intro h
    refine ⟨fun key hkey => ?_, Stage.references_iff.mp h.references⟩
    by_contra hs
    rw [Bool.not_eq_false] at hs
    exact (h.operators _ rfl key (Match.keys_subset_names hkey) hs).2 hkey
  · intro ⟨hkeys, hpaths⟩
    refine ⟨fun test htest name hname hs => ?_, Stage.references_iff.mpr hpaths⟩
    obtain rfl := Stage.match.inj htest
    have hkey : name ∉ (Match.ofPredicate p).keys := by
      intro hkey
      rw [hkeys name hkey] at hs
      cases hs
    exact ⟨(Match.names_ofPredicate hname hs).resolve_right hkey, hkey⟩

/-! Whole pipelines. -/

theorem guarded_stages {s : CostQuery.Stage} {out : List Stage} (h : stages w s = .ok out)
    (hgroup : ∀ g, s = .group g → ∀ k ∈ g.keys, k.source.Reads columns)
    (hfacet : ∀ f, s = .facet f → Sql.KnowsFacet [] f) :
    (∀ x ∈ out, x.Guarded) ↔ Bare (s.columns.map Column.key) := by
  cases s with
  | group g => exact bare_groupStages (hgroup g rfl) h
  | facet f =>
    obtain rfl := Except.ok.inj h
    exact iff_of_true (guarded_facetStages (hfacet f rfl)) bare_nil
  | «match» p =>
    obtain rfl := Except.ok.inj h
    rw [List.forall_mem_singleton]
    exact guarded_match
  | unwind | sort | skip | limit =>
    obtain rfl := Except.ok.inj h
    rw [List.forall_mem_singleton]
    exact Stage.guarded_iff nofun
  | project idents =>
    obtain rfl := Except.ok.inj h
    rw [List.forall_mem_singleton, Stage.guarded_project]
    exact iff_of_true bare_kept bare_nil

theorem guarded_ofPlan {plan : AnalyzePlan} {ss : List Stage} (h : ofPlan w plan = .ok ss)
    (hgroup : ∀ g, .group g ∈ plan.stages → ∀ k ∈ g.keys, k.source.Reads columns)
    (hfacet : ∀ f, .facet f ∈ plan.stages → Sql.KnowsFacet [] f) :
    (∀ s ∈ ss, s.Guarded) ↔ Bare (plan.columns.map Column.key) := by
  obtain ⟨outs, houts, rfl⟩ := bind_pure_ok.mp h
  have hstages : (∀ out ∈ outs, ∀ s ∈ out, s.Guarded) ↔
      ∀ s ∈ plan.stages, Bare (s.columns.map Column.key) :=
    forall_iff_of_mapM_ok houts fun s hs out hout =>
      guarded_stages hout (fun g hg => hgroup g (hg ▸ hs)) fun f hf => hfacet f (hf ▸ hs)
  rw [AnalyzePlan.columns, List.map_flatMap, bare_flatMap, ← hstages, List.forall_mem_flatten]

end Pipeline

namespace AnalyzeQuery
variable {limits : RangeLimits} {r : Request} {q : AnalyzeQuery} {plan : AnalyzePlan}

theorem columns_predicate {p t : Predicate} {c : Column} (hp : q.predicate? = some p)
    (ht : t ∈ p.tests) (hc : t.column? = some c) :
    c ∈ q.columns ∨ ∃ p : Precision, c = Column.ofKey p.column := by
  obtain ⟨part, hpart, ht⟩ := Predicate.mem_tests_all hp ht
  rcases List.mem_append.mp hpart with hwindow | hfilter
  · refine .inr ⟨q.granularity.windowPrecision, ?_⟩
    simp only [windowTests, List.mem_cons, List.not_mem_nil, or_false] at hwindow
    rcases hwindow with rfl | rfl <;>
    · obtain rfl := List.mem_singleton.mp ht
      exact (Option.some.inj hc).symm
  · obtain ⟨cond, hcond, rfl⟩ :=
      Predicate.condition_of_ofFilters (Option.mem_toList.mp hfilter) ht hc
    have hmem : Column.ofKey cond.key ∈ conditionColumns (q.filter ++ q.filterOr) :=
      List.mem_map_of_mem hcond
    simp only [columns, List.mem_append, hmem, true_or, or_true]

/-- A plan reads the columns of its query, and the billed date. -/
theorem columns_ofQuery (hq : ofRequest limits r = .ok q) (h : AnalyzePlan.ofQuery q = .ok plan) :
    ∀ c ∈ plan.columns, c ∈ q.columns ∨ ∃ p : Precision, c = Column.ofKey p.column := by
  obtain ⟨-, rfl⟩ := AnalyzePlan.ofQuery_ok h
  have hreads := draft_reads hq
  intro c hc
  obtain ⟨s, hs, hc⟩ := List.mem_flatMap.mp hc
  obtain ⟨path, hpath, rfl⟩ | ⟨p, hp, rfl⟩ | rfl | ⟨-, rfl⟩ | ⟨-, rfl⟩ | ⟨_, -, rfl | rfl⟩ | rfl :=
    (q.mem_stages q.draft).mp hs
  · obtain rfl := List.mem_singleton.mp hc
    have hmem : (q.unwind.map Column.ofKey) = some (Column.ofKey path) :=
      Option.mem_map_of_mem _ hpath
    simp only [columns, List.mem_append, Option.mem_toList, hmem, or_true, true_or]
  · obtain ⟨t, ht, hc⟩ := List.mem_filterMap.mp hc
    exact columns_predicate hp ht hc
  · rcases List.mem_append.mp hc with hc | hc
    · obtain ⟨k, hk, hc⟩ := List.mem_flatMap.mp hc
      exact .inl ((hreads.keys k hk).columns_subset hc)
    · obtain ⟨f, hf, hc⟩ := List.mem_flatMap.mp hc
      exact .inl ((hreads.fields f hf).input hc)
  all_goals cases hc

/-- What begins with a dollar sign is the pipeline's own, as long as no column that the plan reads
begins so; every such column stands where the store takes it for its own. -/
theorem pipeline_guarded_iff (hq : ofRequest limits r = .ok q)
    (h : AnalyzePlan.ofQuery q = .ok plan) (w : Warehouse) :
    ∃ ss, Pipeline.ofPlan w plan = .ok ss ∧
      ((∀ s ∈ ss, s.Guarded) ↔ ∀ c ∈ plan.columns, hasSigil c.key = false) ∧
      ((∀ c ∈ q.columns, hasSigil c.key = false) → ∀ s ∈ ss, s.Guarded) := by
  obtain ⟨ss, hss⟩ := exists_pipeline hq h w
  have hread := columns_ofQuery hq h
  obtain ⟨-, rfl⟩ := AnalyzePlan.ofQuery_ok h
  have hgroup : ∀ g, .group g ∈ q.stages q.draft → ∀ k ∈ g.keys, k.source.Reads q.columns := by
    intro g hg
    obtain rfl : g = ⟨q.draft.keys, q.draft.fields⟩ := by
      simpa using (q.mem_stages q.draft).mp hg
    exact (draft_reads hq).keys
  have hfacet : ∀ f, .facet f ∈ q.stages q.draft → Sql.KnowsFacet [] f := by
    intro f hf
    obtain ⟨-, rfl⟩ : q.isFaceted = true ∧ f = q.draft.facet := by
      simpa using (q.mem_stages q.draft).mp hf
    exact knows_facet
  have hguarded := Pipeline.guarded_ofPlan hss hgroup hfacet
  rw [Pipeline.Bare, List.forall_mem_map] at hguarded
  refine ⟨ss, hss, hguarded, fun hbare => hguarded.mpr fun c hc => ?_⟩
  rcases hread c hc with hc | ⟨p, rfl⟩
  · exact hbare c hc
  · cases p <;> decide

end AnalyzeQuery

/-- Costs by region, with a facet, are written with the pipeline's own dollar signs only. -/
theorem guarded_region : ∃ plan ss, AnalyzePlan.ofQuery regionQuery = .ok plan ∧
    Pipeline.ofPlan {} plan = .ok ss ∧ ∀ s ∈ ss, s.Guarded := by
  have h : AnalyzePlan.ofQuery regionQuery = .ok _ := rfl
  obtain ⟨ss, hss, -, hguarded⟩ := AnalyzeQuery.pipeline_guarded_iff ofRequest_regionRequest h {}
  exact ⟨_, ss, h, hss, hguarded (by decide)⟩

/-- Columns that go by a test in code and by the variable for the whole document. -/
def whereRequest : Request where
  granularity := some "DAILY"
  start := some "2024-02-01"
  finish := some "2024-02-29"
  groupBy := [.str "$ROOT"]
  filter := [{ key := "$where", value := .str "1" }]

def whereQuery : AnalyzeQuery :=
  { regionQuery with
    filter := [⟨"$where", .eq, .scalar (.text "1")⟩]
    groupBy := [⟨"$ROOT", "$ROOT"⟩]
    fields := []
    fieldGroup := []
    sort := []
    page := none }

def wherePredicate : Predicate :=
  .and [.compare ⟨"billed_date", none⟩ .gte (.text "2024-02-01"),
    .compare ⟨"billed_date", none⟩ .lte (.text "2024-02-29"),
    .compare ⟨"$where", none⟩ .eq (.text "1")]

/-- The pipeline tests by code that the request brought along, and groups by whole documents. -/
theorem whereRequest_unguarded :
    ∃ plan ss test group, AnalyzeQuery.ofRequest {} whereRequest = .ok whereQuery ∧
      AnalyzePlan.ofQuery whereQuery = .ok plan ∧ Pipeline.ofPlan {} plan = .ok ss ∧
      .match test ∈ ss ∧ "$where" ∈ test.toJson.names ∧ "$where" ∈ test.keys ∧
      group ∈ ss ∧ "$$ROOT" ∈ group.references ∧ ¬ group.Guarded := by
  have hq : AnalyzeQuery.ofRequest {} whereRequest = .ok whereQuery := rfl
  have h : AnalyzePlan.ofQuery whereQuery = .ok _ := rfl
  obtain ⟨ss, hss⟩ := AnalyzeQuery.exists_pipeline hq h {}
  have hpredicate : whereQuery.predicate? = some wherePredicate := rfl
  have hmatch : .match wherePredicate ∈ whereQuery.stages whereQuery.draft :=
    (whereQuery.mem_stages _).mpr (.inr (.inl ⟨_, hpredicate, rfl⟩))
  have hgroup : .group ⟨whereQuery.draft.keys, whereQuery.draft.fields⟩ ∈
      whereQuery.stages whereQuery.draft :=
    (whereQuery.mem_stages _).mpr (.inr (.inr (.inl rfl)))
  have hpath : "$ROOT" ∈ (Pipeline.Stage.group [("date", .path "billed_date"),
      ("_ROOT", .path "$ROOT")] []).paths := by decide
  refine ⟨_, ss, .ofPredicate wherePredicate, _, hq, h, hss,
    (Pipeline.mem_ofPlan hss).mpr ⟨_, hmatch, _, rfl, List.mem_singleton_self _⟩,
    List.mem_of_getElem? (i := 5) rfl, List.mem_of_getElem? (i := 2) rfl,
    (Pipeline.mem_ofPlan hss).mpr ⟨_, hgroup, _, rfl, List.mem_cons_self⟩,
    List.mem_map_of_mem hpath, fun hguarded => ?_⟩
  have hbare := Pipeline.Stage.references_iff.mp hguarded.references "$ROOT" hpath
  exact absurd hbare (by decide)

end CostQuery

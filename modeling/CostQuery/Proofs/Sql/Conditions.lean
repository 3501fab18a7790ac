import CostQuery.Proofs.Filter.WellFormed
import CostQuery.Proofs.Plan.Kept
import CostQuery.Proofs.Sql.BilledPeriod
import CostQuery.Proofs.Sql.Fillers
import CostQuery.Proofs.Sql.Items

/-! The conditions of statements: well-formed predicates are printed without fillers. -/

namespace CostQuery.Sql

/-- What rows must meet, in each of the selects. -/
def Statement.conditions (s : Statement) : List Expr :=
  s.subqueries.filterMap (·.2.filter) ++ s.body.filter.toList

section
variable {plan : AnalyzePlan} {facet : Facet} {s body : Select}

theorem filter_facetQuery (h : facetQuery facet = .ok s) : s.filter = none := by
  simp only [facetQuery, bind_ok, pure_ok] at h
  obtain ⟨partition, -, items, -, rfl⟩ := h
  rfl

theorem filter_facetBody (h : facetBody facet = .ok s) : s.filter = none := by
  simp only [facetBody, bind_ok, pure_ok] at h
  obtain ⟨partition, -, totals, -, arrays, -, rfl⟩ := h
  rfl

theorem filter_plainBody (h : plainBody plan = .ok s) : s.filter = none := by
  rw [plainBody] at h
  split at h
  · cases h
  · obtain ⟨names, -, rfl⟩ := bind_pure_ok.mp h
    rfl

theorem filter_paged (h : paged plan body = .ok s) : s.filter = body.filter := by
  obtain ⟨order, -, rfl⟩ := bind_pure_ok.mp h
  rfl

end

namespace Reader
variable {r : Reader} {c : Column} {e : Expr} {zero : Bool} {conds : List Condition}
  {p : Predicate}

theorem full_ofName {name : String} (h : Expr.ofName name = .ok e) : e.Full := by
  obtain ⟨n, -, rfl⟩ := Expr.ofName_ok h
  exact Expr.full_column

theorem full_dateBucket {precision : Precision} (h : r.dateBucket precision = .ok e) :
    e.Full := by
  obtain ⟨column, hcolumn, rfl⟩ := bind_pure_ok.mp h
  simp [full_ofName hcolumn]

theorem full_read (h : r.read c zero = .ok e) : e.Full := by
  have hread := read_readAs h
  generalize r.keyWithin? c = key at hread
  cases hread with
  | whole n => exact Expr.full_column
  | date bucket => exact full_dateBucket bucket
  | typed n key =>
    rw [typed]
    split
    · dsimp only
      split <;> simp
    · simp

/-! Tests of partitions. -/

theorem full_within (m : Months) {month : Expr} (h : month.Full) : (m.within month).Full := by
  rw [Months.within]
  split <;> simp [h]

theorem full_bounds (m : Months) (op : Comparison) {month : Expr} (h : month.Full) :
    (m.bounds op month).Full := by
  cases op with
  | eq | notEq => exact full_within m h
  | lt | lte | gt | gte => simp [Months.bounds, h]

theorem full_comparePartition {op : Comparison} {v : Literal} {partition : Option Expr}
    (h : r.comparePartition c op v = .ok partition) : ∀ e ∈ partition, e.Full := by
  rw [comparePartition] at h
  split at h
  · obtain rfl := Except.ok.inj h
    simp
  · split at h
    · obtain rfl := Except.ok.inj h
      simp
    · obtain ⟨month, hmonth, rfl⟩ := map_ok.mp h
      intro e he
      obtain rfl := Option.some.inj he
      exact full_bounds _ op (full_ofName hmonth)

/-- Without values there are no months, and a list of some has some. -/
theorem full_listPartition {vs : List Literal} {partition : Option Expr} (hne : vs ≠ [])
    (h : r.listPartition c vs = .ok partition) : ∀ e ∈ partition, e.Full := by
  rw [listPartition] at h
  split at h
  · obtain rfl := Except.ok.inj h
    simp
  · split at h
    · obtain rfl := Except.ok.inj h
      simp
    · next months hmonths =>
      obtain ⟨month, hmonth, rfl⟩ := map_ok.mp h
      have hsome : months ≠ [] := by
        rintro rfl
        cases mapM_some hmonths
        exact hne rfl
      have hfull := full_ofName hmonth
      intro e he
      split at he
      · obtain rfl := Option.some.inj he
        obtain ⟨m, rest, rfl⟩ := List.exists_cons_of_ne_nil hsome
        refine Expr.full_oneOf.mpr ⟨⟨?_, List.forall_mem_map.mpr fun _ _ => rfl⟩, hfull⟩
        simp [List.eraseDups_cons]
      · obtain rfl := Option.some.inj he
        simpa [hsome] using fun m _ => full_within m hfull

theorem full_withPartition {test : Expr} {partition : Option Expr} (h : test.Full)
    (h' : ∀ e ∈ partition, e.Full) : (withPartition test partition).Full := by
  cases partition with
  | none => exact h
  | some e => simp [withPartition, h, h' e rfl]

theorem full_momentOf (t : RelativeTime) : (momentOf t).Full := by
  rw [momentOf]
  cases t.offset <;> cases t.dayStart <;> simp

/-- What joins the parts of a predicate is kept, and its tests hold no null. -/
theorem full_filter (hp : p.WellFormed conds) (h : r.filter p = .ok e) : e.Full := by
  induction p using Predicate.of_parts generalizing e with
  | and parts ih =>
    obtain ⟨es, rfl, hes⟩ := r.filter_joins.and_ok.mp h
    cases hp with
    | and many _ formed =>
      refine Expr.full_and.mpr ⟨?_, fun e he => ?_⟩
      · rintro rfl
        cases hes
        cases many
      · obtain ⟨p, hp, hpe⟩ := exists_of_forall₂ hes.flip he
        exact ih p hp (formed p hp) hpe
  | or parts ih =>
    obtain ⟨es, rfl, hes⟩ := r.filter_joins.or_ok.mp h
    cases hp with
    | or many formed =>
      refine Expr.full_or.mpr ⟨?_, fun e he => ?_⟩
      · rintro rfl
        cases hes
        cases many
      · obtain ⟨p, hp, hpe⟩ := exists_of_forall₂ hes.flip he
        exact ih p hp (formed p hp) hpe
  | test p htest =>
    cases hp with
    | compare _ _ known =>
      obtain ⟨read, partition, hread, hpartition, rfl⟩ := filter_compare h
      exact full_withPartition (by simp [full_read hread, known])
        (full_comparePartition hpartition)
    | oneOf _ negated nonempty known =>
      cases negated with
      | false =>
        obtain ⟨read, partition, hread, hpartition, rfl⟩ := filter_oneOf h
        exact full_withPartition (by simpa [full_read hread, nonempty] using known)
          (full_listPartition nonempty hpartition)
      | true =>
        obtain ⟨read, hread, rfl⟩ := bind_pure_ok.mp h
        simpa [full_read hread, nonempty] using known
    | isNull | isNotNull | regex | contains | datetime =>
      obtain ⟨read, hread, rfl⟩ := bind_pure_ok.mp h
      simp [full_read hread]
    | timediff _ t =>
      obtain ⟨read, hread, rfl⟩ := bind_pure_ok.mp h
      simp [full_read hread, full_momentOf]
    | never =>
      obtain rfl := Except.ok.inj h
      exact Expr.full_never
    | and | or => cases htest

theorem full_recentMonths (h : r.recentMonths = .ok e) : e.Full := by
  obtain ⟨column, hcolumn, rfl⟩ := bind_pure_ok.mp h
  simp [full_ofName hcolumn]

theorem full_mapM {predicate? : Option Predicate} (hp : ∀ p ∈ predicate?, p.WellFormed conds)
    {test : Option Expr} (h : predicate?.mapM r.filter = .ok test) : ∀ e ∈ test, e.Full := by
  cases predicate? with
  | none =>
    obtain rfl := pure_ok.mp h
    simp
  | some p =>
    obtain ⟨e, he, rfl⟩ := bind_pure_ok.mp h
    simpa using full_filter (hp p rfl) he

theorem full_searchFilter {plan : SearchPlan} (hp : ∀ p ∈ plan.predicate, p.WellFormed conds)
    {filter : Option Expr} (h : r.searchFilter plan = .ok filter) : ∀ e ∈ filter, e.Full := by
  cases hdate : plan.hasDateFilter with
  | true =>
    rw [searchFilter, hdate] at h
    obtain ⟨test, htest, h⟩ := bind_ok.mp h
    have hfull := full_mapM hp htest
    cases test with
    | none =>
      obtain rfl := pure_ok.mp h
      simp
    | some test =>
      obtain rfl := pure_ok.mp h
      exact hfull
  | false =>
    rw [searchFilter, hdate] at h
    obtain ⟨test, htest, h⟩ := bind_ok.mp h
    obtain ⟨window, hwindow, h⟩ := bind_ok.mp h
    have hfull := full_mapM hp htest
    obtain ⟨recent, hrecent, rfl⟩ := map_ok.mp hwindow
    cases test with
    | none =>
      obtain rfl := pure_ok.mp h
      simpa using full_recentMonths hrecent
    | some test =>
      obtain rfl := pure_ok.mp h
      simpa using ⟨hfull test rfl, full_recentMonths hrecent⟩

/-- Only the select of the groups has conditions: those of the plan. -/
theorem analysis_conditions {plan : AnalyzePlan} {st : Statement} (h : r.analysis plan = .ok st) :
    ∃ filter, (plan.stages.findSome? Stage.match?).mapM r.filter = .ok filter ∧
      st.conditions = filter.toList := by
  rw [analysis] at h
  split at h
  · cases h
  · next g _ =>
    obtain ⟨base, hbase, h⟩ := bind_ok.mp h
    simp only [baseQuery, bind_ok, pure_ok] at hbase
    obtain ⟨table, -, explode, -, filter, hfilter, keys, -, fields, -, rfl⟩ := hbase
    refine ⟨filter, hfilter, ?_⟩
    split at h
    · simp only [bind_ok, pure_ok] at h
      obtain ⟨facets, hfacets, body, hbody, body', hpaged, rfl⟩ := h
      cases filter <;> simp [Statement.conditions, filter_facetQuery hfacets,
        (filter_paged hpaged).trans (filter_facetBody hbody)]
    · simp only [bind_ok, pure_ok] at h
      obtain ⟨body, hbody, body', hpaged, rfl⟩ := h
      cases filter <;> simp [Statement.conditions,
        (filter_paged hpaged).trans (filter_plainBody hbody)]

end Reader

/-- Every predicate of a plan is well formed, at any depth, and every condition of its statement is
printed without fillers: no empty list, no null to compare with, no truth value for what is not
there. -/
theorem predicates_wellFormed (limits : RangeLimits) (w : Warehouse) (r : Request) :
    (∀ q plan, AnalyzeQuery.ofRequest limits r = .ok q → AnalyzePlan.ofQuery q = .ok plan →
      (∀ p, .match p ∈ plan.stages → p.WellFormed (q.filter ++ q.filterOr)) ∧
      ∀ st, Statement.ofAnalyzePlan w plan = .ok st → ∀ e ∈ st.conditions, e.Clean) ∧
    ∀ q, SearchQuery.ofRequest r = .ok q →
      (∀ p ∈ (SearchPlan.ofQuery w q).predicate, p.WellFormed (q.filter ++ q.filterOr)) ∧
      ∀ st, Statement.ofSearchPlan w (SearchPlan.ofQuery w q) = .ok st →
        ∀ e ∈ st.conditions, e.Clean := by
  constructor
  · intro q plan _ hplan
    obtain ⟨-, rfl⟩ := AnalyzePlan.ofQuery_ok hplan
    refine ⟨fun p hp => ?_, fun st hst e he => ?_⟩
    · have hpredicate : p ∈ q.predicate? := by simpa using (q.mem_stages q.draft).mp hp
      exact AnalyzeQuery.wellFormed_predicate hpredicate
    · obtain ⟨filter, hfilter, hconditions⟩ := Reader.analysis_conditions hst
      rw [hconditions, Option.mem_toList] at he
      rw [q.match_stages] at hfilter
      exact (Reader.full_mapM (fun p => AnalyzeQuery.wellFormed_predicate) hfilter e he).clean
  · intro q _
    refine ⟨fun p => Predicate.wellFormed_ofFilters, fun st hst e he => ?_⟩
    have hnone : st.subqueries = [] := (search_items hst).1
    rw [Statement.conditions, hnone, List.filterMap_nil, List.nil_append, Option.mem_toList] at he
    exact (Reader.full_searchFilter (fun p => Predicate.wellFormed_ofFilters)
      (Reader.search_filter hst) e he).clean

/-- Lists with null in them and without, and alternatives. -/
def mixedRequest : Request :=
  { regionRequest with
    filter := [⟨"provider", .arr [.str "aws", .null], some "not_in"⟩,
      ⟨"tags.env", .arr [.str "prod", .null], some "contain_in"⟩]
    filterOr := [⟨"active", .bool true, none⟩, ⟨"region", .arr [.null, .str "eu"], some "in"⟩] }

def mixedQuery : AnalyzeQuery :=
  { regionQuery with
    filter := [⟨"provider", .notIn, .list [.text "aws", .null]⟩,
      ⟨"tags.env", .containIn, .list [.text "prod", .null]⟩]
    filterOr := [⟨"active", .eq, .scalar (.bool true)⟩,
      ⟨"region", .in, .list [.null, .text "eu"]⟩] }

/-- The parts of the conjunction for the first list are parts of the whole one. -/
theorem mixedRequest_wellFormed :
    ∃ plan st p e, AnalyzeQuery.ofRequest {} mixedRequest = .ok mixedQuery ∧
      AnalyzePlan.ofQuery mixedQuery = .ok plan ∧ .match p ∈ plan.stages ∧
      p.conjuncts.length = 6 ∧ p.WellFormed (mixedQuery.filter ++ mixedQuery.filterOr) ∧
      Statement.ofAnalyzePlan {} plan = .ok st ∧ st.conditions = [e] ∧ e.Clean := by
  have hq : AnalyzeQuery.ofRequest {} mixedRequest = .ok mixedQuery := rfl
  have hplan : AnalyzePlan.ofQuery mixedQuery = .ok _ := rfl
  obtain ⟨hformed, hclean⟩ := (predicates_wellFormed {} {} mixedRequest).1 _ _ hq hplan
  have hpredicate : mixedQuery.predicate? = some _ := rfl
  have hmatch := (mixedQuery.mem_stages mixedQuery.draft).mpr (.inr (.inl ⟨_, hpredicate, rfl⟩))
  exact ⟨_, _, _, _, hq, hplan, hmatch, rfl, hformed _ hmatch, rfl, rfl,
    hclean _ rfl _ List.mem_cons_self⟩

end CostQuery.Sql

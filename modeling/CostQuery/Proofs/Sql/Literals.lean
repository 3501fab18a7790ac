import CostQuery.Proofs.Select.Literals
import CostQuery.Proofs.Sql.Columns
import CostQuery.Proofs.Sql.Spelled

/-! Values in SQL: those that filters compare with, and the literals of computed columns. -/

namespace CostQuery.Sql

/-- The test in which an operator compares what is read with a value. -/
inductive Tests (read : Expr) (v : Literal) : Operator → Expr → Prop
  | eq : Tests read v .eq (.compare .eq read (.literal v))
  | not : Tests read v .not (.compare .notEq read (.literal v))
  | lt : Tests read v .lt (.compare .lt read (.literal v))
  | lte : Tests read v .lte (.compare .lte read (.literal v))
  | gt : Tests read v .gt (.compare .gt read (.literal v))
  | gte : Tests read v .gte (.compare .gte read (.literal v))
  | «in» {vs : List Literal} (h : v ∈ vs) : Tests read v .in (.oneOf read vs false)
  | notIn {vs : List Literal} (h : v ∈ vs) : Tests read v .notIn (.oneOf read vs true)

/-- Some condition compares the column with the value, and is written so. -/
def Statement.Compares (st : Statement) (r : Reader) (c : Column) (op : Operator) (v : Literal) :
    Prop :=
  ∃ cond ∈ st.conditions, ∃ test ∈ cond.nodes, ∃ read, r.tested c = .ok read ∧
    Tests read v op test ∧ st.Spells test v

/-- Some item of the name has the value as a literal, and is written so. -/
def Statement.Computes (st : Statement) (ident : String) (v : Literal) : Prop :=
  ∃ s ∈ st.selects, ∃ i ∈ s.items, (∀ before, i.outputs before = [ident]) ∧
    .literal v ∈ i.expr.nodes ∧ st.Spells i.expr v

variable {r : Reader} {st : Statement} {s : Select} {p t : Predicate} {c : Column} {op : Operator}
  {v : Literal} {e cond test read : Expr}

theorem Tests.value (h : Tests read v op e) : .ofLiteral v ∈ e.tokens := by
  have among {vs : List Literal} (h : v ∈ vs) (negated : Bool) :
      .ofLiteral v ∈ (Expr.oneOf read vs negated).tokens := by
    have hitem : [.ofLiteral v] <:+: Token.separated ", " (vs.map fun v => [.ofLiteral v]) :=
      Token.infix_separated (List.mem_map_of_mem h)
    simp [Expr.tokens, hitem.subset (List.mem_singleton_self _)]
  cases h with
  | eq | not | lt | lte | gt | gte => simp [Expr.tokens]
  | «in» h => exact among h false
  | notIn h => exact among h true

/-! Filters. -/

theorem Statement.spells_of_condition (hcond : cond ∈ st.conditions) (htest : test ∈ cond.nodes)
    (hv : .ofLiteral v ∈ test.tokens) : st.Spells test v := by
  obtain ⟨s, hs, hfilter⟩ := mem_conditions.mp hcond
  exact ⟨st.lex_text, (Expr.infix_of_mem_nodes htest).trans (infix_of_filter hs hfilter), hv⟩

namespace Reader

/-- The tests of a predicate are compiled inside it. -/
theorem exists_node (he : r.filter p = .ok e) (ht : t ∈ p.tests) :
    ∃ part, r.filter t = .ok part ∧ part ∈ e.nodes := by
  refine r.filter_joins.exists_test (R := fun part e => part ∈ e.nodes) Expr.mem_nodes_self
    ?_ ?_ he ht
  · intro e part parts hpart h
    exact Expr.mem_nodes_iff.mpr (Or.inr ⟨part, hpart, h⟩)
  · intro e part parts hpart h
    exact Expr.mem_nodes_iff.mpr (Or.inr ⟨part, hpart, h⟩)

theorem mem_nodes_withPartition (test : Expr) (partition : Option Expr) :
    test ∈ (withPartition test partition).nodes := by
  cases partition with
  | none => exact Expr.mem_nodes_self test
  | some e => exact Expr.mem_nodes_of_child List.mem_cons_self (Expr.mem_nodes_self test)

theorem exists_test (h : Predicate.Compares c v op t) (he : r.filter t = .ok e) :
    ∃ test ∈ e.nodes, ∃ read, r.tested c = .ok read ∧ Tests read v op test := by
  cases h with
  | eq | not | lt | lte | gt | gte =>
    obtain ⟨read, partition, hread, -, rfl⟩ := filter_compare he
    exact ⟨_, mem_nodes_withPartition _ _, read, hread, by constructor⟩
  | «in» h =>
    obtain ⟨read, partition, hread, -, rfl⟩ := filter_oneOf he
    exact ⟨_, mem_nodes_withPartition _ _, read, hread, .in h⟩
  | notIn h =>
    obtain ⟨read, hread, rfl⟩ := bind_pure_ok.mp he
    exact ⟨_, Expr.mem_nodes_self _, read, hread, .notIn h⟩

end Reader

theorem Statement.compares_of_filter (hcond : cond ∈ st.conditions) (hpart : e ∈ cond.nodes)
    (he : r.filter p = .ok e) (ht : t ∈ p.tests) (h : Predicate.Compares c v op t) :
    st.Compares r c op v := by
  obtain ⟨part, hpart', hnode⟩ := Reader.exists_node he ht
  obtain ⟨test, htest, read, hread, htests⟩ := Reader.exists_test h hpart'
  have hmem := Expr.mem_nodes_trans htest (Expr.mem_nodes_trans hnode hpart)
  exact ⟨cond, hcond, test, hmem, read, hread, htests,
    spells_of_condition hcond hmem htests.value⟩

theorem Reader.compares_of_analysis {plan : AnalyzePlan} (h : r.analysis plan = .ok st)
    (hp : plan.stages.findSome? Stage.match? = some p) (ht : t ∈ p.tests)
    (hcompares : Predicate.Compares c v op t) : st.Compares r c op v := by
  obtain ⟨filter, hfilter, hconditions⟩ := analysis_conditions h
  rw [hp] at hfilter
  obtain ⟨e, he, rfl⟩ := bind_pure_ok.mp hfilter
  exact Statement.compares_of_filter (by simp [hconditions]) (Expr.mem_nodes_self e) he ht
    hcompares

theorem Reader.compares_of_search {plan : SearchPlan} (h : r.search plan = .ok st)
    (hp : plan.predicate = some p) (ht : t ∈ p.tests)
    (hcompares : Predicate.Compares c v op t) : st.Compares r c op v := by
  have hbody {cond : Expr} (hcond : st.body.filter = some cond) : cond ∈ st.conditions := by
    simp [Statement.conditions, hcond]
  cases hdate : plan.hasDateFilter with
  | true =>
    have hfilter := filter_of_search h hdate
    rw [hp] at hfilter
    obtain ⟨e, he, hfilter⟩ := bind_pure_ok.mp hfilter
    exact Statement.compares_of_filter (hbody hfilter.symm) (Expr.mem_nodes_self e) he ht
      hcompares
  | false =>
    have hsearch := search_filter h
    rw [searchFilter, hp, hdate] at hsearch
    obtain ⟨test, htest, hsearch⟩ := bind_ok.mp hsearch
    obtain ⟨e, he, rfl⟩ := bind_pure_ok.mp htest
    obtain ⟨window, hwindow, hsearch⟩ := bind_ok.mp hsearch
    obtain ⟨recent, -, rfl⟩ := map_ok.mp hwindow
    exact Statement.compares_of_filter (hbody (pure_ok.mp hsearch).symm)
      (Expr.mem_nodes_of_child List.mem_cons_self (Expr.mem_nodes_self e)) he ht hcompares

/-! Computed columns. -/

theorem Statement.computes_of_item (hs : s ∈ st.selects) {i : Item} (hi : i ∈ s.items)
    {computed : Computed} (h : computed.Holds v) (he : r.computed computed = .ok e)
    {ident : String} (hnamed : named e ident = .ok i) : st.Computes ident v := by
  obtain ⟨rfl, hname⟩ := named_ok hnamed
  have hnode := Reader.mem_nodes_computed h he
  exact ⟨s, hs, i, hi, hname, hnode, st.lex_text, infix_of_item hs hi,
    (Expr.infix_of_mem_nodes hnode).subset (List.mem_singleton_self _)⟩

theorem Reader.computes_of_analysis {plan : AnalyzePlan} {g : Group} {k : GroupKey}
    {computed : Computed} (h : r.analysis plan = .ok st) (hg : plan.group? = some g)
    (hk : k ∈ g.keys) (hsource : k.source = .computed computed) (hholds : computed.Holds v) :
    st.Computes k.ident v := by
  rw [analysis, hg] at h
  obtain ⟨base, hbase, h⟩ := bind_ok.mp h
  have hselect : base ∈ st.selects := by
    split at h
    · simp only [bind_ok, pure_ok] at h
      obtain ⟨facets, -, body, -, paged, -, rfl⟩ := h
      exact List.mem_cons_self
    · simp only [bind_ok, pure_ok] at h
      obtain ⟨body, -, paged, -, rfl⟩ := h
      exact List.mem_cons_self
  simp only [baseQuery, bind_ok, pure_ok] at hbase
  obtain ⟨table, -, explode, -, filter, -, keys, hkeys, fields, -, rfl⟩ := hbase
  obtain ⟨i, hi, hitem⟩ := exists_of_forall₂ (mapM_ok hkeys) hk
  obtain ⟨e, he, hnamed⟩ := bind_ok.mp hitem
  rw [keyExpr, hsource] at he
  exact Statement.computes_of_item hselect (List.mem_append_left _ hi) hholds he hnamed

theorem Reader.computes_of_search {plan : SearchPlan} {l : Listing} {name : String}
    {computed : Computed} (h : r.search plan = .ok st) (hmode : plan.mode = .rows l)
    (hmem : (name, computed) ∈ l.computed) (hholds : computed.Holds v) :
    st.Computes (Alias.ofName name) v := by
  simp only [search, bind_ok, pure_ok, hmode] at h
  obtain ⟨table, -, explode, -, filter, -, body, hbody, rfl⟩ := h
  simp only [listed, bind_ok, pure_ok] at hbody
  obtain ⟨columns, -, items, hitems, order, -, rfl⟩ := hbody
  obtain ⟨i, hi, hitem⟩ := exists_of_forall₂ (mapM_ok hitems) hmem
  obtain ⟨e, he, hnamed⟩ := bind_ok.mp hitem
  exact Statement.computes_of_item (List.mem_singleton_self _)
    (List.mem_append_left _ (List.mem_append_right _ hi)) hholds he hnamed

end CostQuery.Sql

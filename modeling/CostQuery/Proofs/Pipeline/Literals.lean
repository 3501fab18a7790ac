import CostQuery.Proofs.Filter.Compared
import CostQuery.Proofs.Pipeline.Documents
import CostQuery.Proofs.Pipeline.Names
import CostQuery.Proofs.Select.Literals

/-! Values in the documents of pipelines: those that filters compare with, and the literals of
computed columns. -/

namespace CostQuery.Pipeline

/-- The test in which an operator compares a member with a value, as it is written. -/
inductive WrittenTest (j : Json) : Operator → Json → Prop
  | eq : WrittenTest j .eq (operator "$eq" j)
  | not : WrittenTest j .not (operator "$nin" (.arr [j, .null]))
  | lt : WrittenTest j .lt (operator "$lt" j)
  | lte : WrittenTest j .lte (operator "$lte" j)
  | gt : WrittenTest j .gt (operator "$gt" j)
  | gte : WrittenTest j .gte (operator "$gte" j)
  | «in» {items : List Json} (h : j ∈ items) : WrittenTest j .in (operator "$in" (.arr items))
  | notIn {items : List Json} (h : j ∈ items) : WrittenTest j .notIn (operator "$nin" (.arr items))

/-- The member of the column is compared with the value, in a stage that selects documents. -/
def Compares (ss : List Stage) (c : Column) (op : Operator) (v : Literal) : Prop :=
  ∃ m, .match m ∈ ss ∧
    ∃ test, WrittenTest v.toJson op test ∧ (Json.obj [(c.key, test)]).Within m.toJson

/-- The member of the name in the key of a group is computed with the value as a literal. -/
def Computes (ss : List Stage) (ident : String) (v : Literal) : Prop :=
  ∃ s ∈ ss, ∃ key rest x, s.toJson = operator "$group" (.obj (("_id", .obj key) :: rest)) ∧
    (ident, x) ∈ key ∧ (operator "$literal" v.toJson).Within x

variable {w : Warehouse} {plan : AnalyzePlan} {ss : List Stage} {p t : Predicate} {c : Column}
  {op : Operator} {v : Literal}

theorem within_ofPredicate (h : t ∈ p.tests) :
    (Match.ofPredicate t).toJson.Within (Match.ofPredicate p).toJson := by
  induction p using Predicate.of_parts with
  | test p hp =>
    rw [Predicate.tests_of_isTest hp, List.mem_singleton] at h
    exact h ▸ .self
  | and parts ih =>
    obtain ⟨q, hq, ht⟩ := Predicate.mem_tests_and.mp h
    rw [Match.ofPredicate, Match.toJson, matchesToJson_eq, matchesOf_eq, List.map_map]
    exact within_operator (List.mem_map_of_mem hq) (ih q hq ht)
  | or parts ih =>
    obtain ⟨q, hq, ht⟩ := Predicate.mem_tests_or.mp h
    rw [Match.ofPredicate, Match.toJson, matchesToJson_eq, matchesOf_eq, List.map_map]
    exact within_operator (List.mem_map_of_mem hq) (ih q hq ht)

theorem exists_written (h : Predicate.Compares c v op t) :
    ∃ test, WrittenTest v.toJson op test ∧
      (Match.ofPredicate t).toJson = .obj [(c.key, test)] := by
  cases h with
  | eq | not | lt | lte | gt | gte => exact ⟨_, by constructor, rfl⟩
  | «in» h => exact ⟨_, .in (List.mem_map_of_mem h), rfl⟩
  | notIn h => exact ⟨_, .notIn (List.mem_map_of_mem (List.mem_append_left _ h)), rfl⟩

theorem compares_of_match (hss : ofPlan w plan = .ok ss) (hp : .match p ∈ plan.stages)
    (ht : t ∈ p.tests) (h : Predicate.Compares c v op t) : Compares ss c op v := by
  obtain ⟨test, htest, heq⟩ := exists_written h
  exact ⟨.ofPredicate p, (mem_ofPlan hss).mpr ⟨_, hp, _, rfl, List.mem_singleton_self _⟩, test,
    htest, heq ▸ within_ofPredicate ht⟩

/-- The key of a group is kept whole, if its members have names of their own and no accumulator
takes its name. -/
theorem exists_groupKey {key : List (String × Expr)} {accumulators : List (String × Accumulator)}
    (hkey : (key.map Prod.fst).Nodup) (haccumulators : ("_id" :: accumulators.map Prod.fst).Nodup)
    {member : String × Expr} (hmember : member ∈ key) :
    ∃ members rest, (Stage.group key accumulators).toJson =
        operator "$group" (.obj (("_id", .obj members) :: rest)) ∧
      (member.1, member.2.toJson) ∈ members := by
  have hne : key.isEmpty = false := by simpa using List.ne_nil_of_mem hmember
  rw [written_group.mpr ⟨hkey, haccumulators⟩, Stage.written, hne]
  exact ⟨_, _, rfl, List.mem_map_of_mem hmember⟩

theorem computes_of_group {g : Group} (hss : ofPlan w plan = .ok ss) (hg : .group g ∈ plan.stages)
    (hkeys : (g.keys.map (·.ident)).Nodup) (hfields : ("_id" :: g.fields.map (·.ident)).Nodup)
    {k : GroupKey} (hk : k ∈ g.keys) {computed : Computed} (hsource : k.source = .computed computed)
    (h : computed.Holds v) : Computes ss k.ident v := by
  obtain ⟨outs, houts, rfl⟩ := bind_pure_ok.mp hss
  obtain ⟨out, hout, hgroup⟩ := exists_of_forall₂ (mapM_ok houts) hg
  simp only [stages, groupStages, bind_ok, pure_ok] at hgroup
  obtain ⟨key, hkey, accumulators, haccumulators, rfl⟩ := hgroup
  have hidents : key.map Prod.fst = g.keys.map (·.ident) :=
    map_of_mapM_ok hkey fun k entry hentry => by
      obtain ⟨x, -, rfl⟩ := bind_pure_ok.mp hentry
      rfl
  have hnames : accumulators.map Prod.fst = g.fields.map (·.ident) :=
    map_of_mapM_ok haccumulators fun f entry hentry => by
      obtain ⟨x, -, rfl⟩ := bind_pure_ok.mp hentry
      rfl
  obtain ⟨member, hmember, hentry⟩ := exists_of_forall₂ (mapM_ok hkey) hk
  obtain ⟨x, hx, rfl⟩ := bind_pure_ok.mp hentry
  rw [keyExpr, hsource] at hx
  obtain ⟨members, rest, hdocument, hmember⟩ :=
    exists_groupKey (hidents ▸ hkeys) (hnames ▸ hfields) hmember
  exact ⟨_, List.mem_flatten_of_mem hout List.mem_cons_self, members, rest, _, hdocument, hmember,
    within_computed h hx⟩

end CostQuery.Pipeline

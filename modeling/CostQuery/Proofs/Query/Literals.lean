import CostQuery.Proofs.Pipeline.Literals
import CostQuery.Proofs.Sql.Literals

/-! Values from requests to both stores. -/

namespace CostQuery

/-- A value as it was read, and how it is written again: to documents as it was given, and to SQL as
text that stands for it, unless it is a number above the signed ones. -/
structure Literal.ReadFrom (v : Literal) (j : Json) : Prop where
  read : Literal.ofJson? j = some v
  written : v.toJson = j ↔ ¬ j.IsBeyond
  spelled : ¬ j.IsBeyond → Sql.denoted? (Sql.Token.ofLiteral v).lexemes = some j

theorem Literal.exists_readFrom {j : Json} (h : j.isExact = true) :
    ∃ v, ReadFrom v j ∧ v.isNull = false := by
  obtain ⟨v, hv⟩ := exists_of_exact h
  obtain ⟨hknown, hexact, hwritten⟩ := exact_iff h hv
  refine ⟨v, ⟨hv, hwritten, fun hwithin => ?_⟩, hknown⟩
  rw [Sql.denoted_ofLiteral (hexact.mpr hwithin), hwritten.mpr hwithin]

namespace AnalyzeQuery
variable {limits : RangeLimits} {w : Warehouse} {r : Request} {q : AnalyzeQuery}
  {plan : AnalyzePlan} {ss : List Pipeline.Stage} {j : Json} {v : Literal}

theorem compares_literal (hq : ofRequest limits r = .ok q)
    (hplan : AnalyzePlan.ofQuery q = .ok plan) (hss : Pipeline.ofPlan w plan = .ok ss)
    {c : Request.Condition} (hc : c ∈ r.filter ++ r.filterOr)
    {op : Operator} (hop : c.operator? = some op) (hj : j ∈ op.compared c.value)
    (hv : Literal.ofJson? j = some v) (hknown : v.isNull = false) :
    Pipeline.Compares ss (Column.ofKey c.key) op v ∧
      ∀ st, Sql.Statement.ofAnalyzePlan w plan = .ok st →
        st.Compares ⟨w, plan.stages.findSome? Stage.unwind?⟩ (Column.ofKey c.key) op v := by
  obtain ⟨whole, t, hwhole, ht, hcompares⟩ :=
    (of_ofRequest hq).2.exists_compares hc hop hj hv hknown
  obtain ⟨p, hp, ht⟩ := exists_predicate_test hwhole ht
  obtain ⟨-, rfl⟩ := AnalyzePlan.ofQuery_ok hplan
  have hmatch : .match p ∈ q.stages q.draft := (q.mem_stages q.draft).mpr (.inr (.inl ⟨p, hp, rfl⟩))
  exact ⟨Pipeline.compares_of_match hss hmatch ht hcompares, fun st hst =>
    Sql.Reader.compares_of_analysis hst ((q.match_stages q.draft).trans hp) ht hcompares⟩

theorem computes_literal (hplan : AnalyzePlan.ofQuery q = .ok plan)
    (hss : Pipeline.ofPlan w plan = .ok ss) {g : Group} (hg : plan.group? = some g)
    {k : GroupKey} (hk : k ∈ g.keys) {computed : Computed} (hsource : k.source = .computed computed)
    (h : computed.Holds v) :
    ("_id" ∉ g.fields.map (·.ident) → Pipeline.Computes ss k.ident v) ∧
      ∀ st, Sql.Statement.ofAnalyzePlan w plan = .ok st → st.Computes k.ident v := by
  refine ⟨fun hid => ?_, fun st hst => Sql.Reader.computes_of_analysis hst hg hk hsource h⟩
  obtain rfl := Option.some.inj ((AnalyzePlan.group_of_ofQuery hplan).symm.trans hg)
  have hcolumns := q.draft_scoped.columns_nodup
  rw [Draft.columns] at hcolumns
  obtain ⟨hkeys, hrest, -⟩ := List.nodup_append.mp hcolumns
  obtain ⟨hfields, -, -⟩ := List.nodup_append.mp hrest
  exact Pipeline.computes_of_group hss (AnalyzePlan.mem_of_group hg) hkeys
    (List.nodup_cons.mpr ⟨hid, hfields⟩) hk hsource h

end AnalyzeQuery

/-- Every text, truth value and whole number that a condition compares with, or that is a literal of
a computed column, stands in its place in the pipeline and in the SQL of the plan: as it was given,
but for the numbers above the signed ones of 64 bits, of which no pipeline has one. The key of a
group, and with it every computed column, is lost where a field takes its name. -/
theorem literals_unchanged (limits : RangeLimits) (w : Warehouse) (r : Request) :
    (∀ q plan, AnalyzeQuery.ofRequest limits r = .ok q → AnalyzePlan.ofQuery q = .ok plan →
      ∃ ss, Pipeline.ofPlan w plan = .ok ss ∧
        (∀ c ∈ r.filter ++ r.filterOr, ∀ op ∈ c.operator?, ∀ j ∈ op.compared c.value,
          j.isExact = true → ∃ v, Literal.ReadFrom v j ∧
            Pipeline.Compares ss (Column.ofKey c.key) op v ∧
            ∀ st, Sql.Statement.ofAnalyzePlan w plan = .ok st →
              st.Compares ⟨w, plan.stages.findSome? Stage.unwind?⟩ (Column.ofKey c.key) op v) ∧
        ∀ g definition e k j, plan.group? = some g → SelectExpr.ofJson? definition = some e →
          k ∈ g.keys → k.source = .computed (.ofSelect e) → SelectExpr.LiteralOf j definition →
          j.isExact = true → ∃ v, Literal.ReadFrom v j ∧
            ("_id" ∉ g.fields.map (·.ident) → Pipeline.Computes ss k.ident v) ∧
            ∀ st, Sql.Statement.ofAnalyzePlan w plan = .ok st → st.Computes k.ident v) ∧
    ∀ q st, SearchQuery.ofRequest r = .ok q →
      Sql.Statement.ofSearchPlan w (SearchPlan.ofQuery w q) = .ok st →
        (∀ c ∈ r.filter ++ r.filterOr, ∀ op ∈ c.operator?, ∀ j ∈ op.compared c.value,
          j.isExact = true → ∃ v, Literal.ReadFrom v j ∧
            st.Compares ⟨w, (SearchPlan.ofQuery w q).unwind⟩ (Column.ofKey c.key) op v) ∧
        ∀ l definition e name j, (SearchPlan.ofQuery w q).mode = .rows l →
          SelectExpr.ofJson? definition = some e → (name, .ofSelect e) ∈ l.computed →
          SelectExpr.LiteralOf j definition → j.isExact = true →
            ∃ v, Literal.ReadFrom v j ∧ st.Computes (Alias.ofName name) v := by
  constructor
  · intro q plan hq hplan
    obtain ⟨ss, hss⟩ := AnalyzeQuery.exists_pipeline hq hplan w
    refine ⟨ss, hss, fun c hc op hop j hj hexact => ?_, ?_⟩
    · obtain ⟨v, hv, hknown⟩ := Literal.exists_readFrom hexact
      obtain ⟨hpipeline, hsql⟩ :=
        AnalyzeQuery.compares_literal hq hplan hss hc hop hj hv.read hknown
      exact ⟨v, hv, hpipeline, hsql⟩
    · intro g definition e k j hg he hk hsource hliteral hexact
      obtain ⟨v, hv, -⟩ := Literal.exists_readFrom hexact
      obtain ⟨v', hv', hholds⟩ := SelectExpr.exists_holds hliteral he
      obtain rfl := Option.some.inj (hv.read.symm.trans hv')
      exact ⟨v, hv, AnalyzeQuery.computes_literal hplan hss hg hk hsource hholds⟩
  · intro q st hq hst
    refine ⟨fun c hc op hop j hj hexact => ?_, ?_⟩
    · obtain ⟨v, hv, hknown⟩ := Literal.exists_readFrom hexact
      obtain ⟨p, t, hp, ht, hcompares⟩ :=
        (SearchQuery.of_ofRequest hq).exists_compares hc hop hj hv.read hknown
      exact ⟨v, hv, Sql.Reader.compares_of_search hst hp ht hcompares⟩
    · intro l definition e name j hmode he hmem hliteral hexact
      obtain ⟨v, hv, -⟩ := Literal.exists_readFrom hexact
      obtain ⟨v', hv', hholds⟩ := SelectExpr.exists_holds hliteral he
      obtain rfl := Option.some.inj (hv.read.symm.trans hv')
      exact ⟨v, hv, Sql.Reader.computes_of_search hst hmode hmem hholds⟩

def shareDefinition : Json :=
  .obj [("operator", .str "divide"), ("fields", .arr [.str "cost", .int 9223372036854775807])]

theorem shareDefinition_literal :
    SelectExpr.LiteralOf (.int 9223372036854775807) shareDefinition :=
  .operand rfl rfl (by decide) rfl (List.mem_cons_of_mem _ List.mem_cons_self) (.number _)

/-- A text with a quote and a backslash in it, the least signed number in a list, and the greatest
one in a division. -/
def exactRequest : Request :=
  { regionRequest with
    filter := [⟨"tags.owner", .str "o'hara\\", none⟩,
      ⟨"seats", .arr [.int (-9223372036854775808), .null], some "in"⟩]
    select := [("share", shareDefinition)] }

def exactQuery : AnalyzeQuery :=
  { regionQuery with
    filter := [⟨"tags.owner", .eq, .scalar (.text "o'hara\\")⟩,
      ⟨"seats", .in, .list [.int (-9223372036854775808), .null]⟩]
    select := [("share",
      .arithmetic .divide [.field "cost", .literal (.int 9223372036854775807)])] }

theorem exactRequest_unchanged :
    ∃ plan ss st, AnalyzeQuery.ofRequest {} exactRequest = .ok exactQuery ∧
      AnalyzePlan.ofQuery exactQuery = .ok plan ∧ Pipeline.ofPlan {} plan = .ok ss ∧
      Sql.Statement.ofAnalyzePlan {} plan = .ok st ∧
      Pipeline.Compares ss ⟨"tags", some "owner"⟩ .eq (.text "o'hara\\") ∧
      st.Compares ⟨{}, none⟩ ⟨"tags", some "owner"⟩ .eq (.text "o'hara\\") ∧
      Pipeline.Compares ss ⟨"seats", none⟩ .in (.int (-9223372036854775808)) ∧
      st.Compares ⟨{}, none⟩ ⟨"seats", none⟩ .in (.int (-9223372036854775808)) ∧
      Pipeline.Computes ss "share" (.int 9223372036854775807) ∧
      st.Computes "share" (.int 9223372036854775807) := by
  have hq : AnalyzeQuery.ofRequest {} exactRequest = .ok exactQuery := rfl
  have hplan : AnalyzePlan.ofQuery exactQuery = .ok _ := rfl
  obtain ⟨ss, hss, hcompared, hcomputed⟩ :=
    (literals_unchanged {} {} exactRequest).1 _ _ hq hplan
  obtain ⟨owner, howner, hdocOwner, hsqlOwner⟩ := hcompared _ List.mem_cons_self .eq rfl
    (.str "o'hara\\") List.mem_cons_self rfl
  obtain ⟨seats, hseats, hdocSeats, hsqlSeats⟩ := hcompared _
    (List.mem_cons_of_mem _ List.mem_cons_self) .in rfl (.int (-9223372036854775808))
    List.mem_cons_self (by decide)
  obtain ⟨share, hshare, hdocShare, hsqlShare⟩ := hcomputed _ _ _ ⟨"share", _⟩
    (.int 9223372036854775807) rfl rfl (List.mem_of_getElem? (i := 3) rfl) rfl
    shareDefinition_literal (by decide)
  obtain rfl : .text "o'hara\\" = owner := Option.some.inj howner.read
  obtain rfl : .int (-9223372036854775808) = seats := Option.some.inj hseats.read
  obtain rfl : .int 9223372036854775807 = share := Option.some.inj hshare.read
  exact ⟨_, ss, _, hq, hplan, hss, rfl, hdocOwner, hsqlOwner _ rfl, hdocSeats, hsqlSeats _ rfl,
    hdocShare (by decide), hsqlShare _ rfl⟩

/-! Whole numbers are in lists and objects where they are in an item or a member. -/

section
variable {n : Int}

theorem int_within_arr {items : List Json} :
    (Json.int n).Within (.arr items) ↔ ∃ v ∈ items, (Json.int n).Within v :=
  Json.within_arr.trans (or_iff_right nofun)

theorem int_within_obj {members : List (String × Json)} :
    (Json.int n).Within (.obj members) ↔ ∃ e ∈ members, (Json.int n).Within e.2 :=
  Json.within_obj.trans (or_iff_right nofun)

theorem int_within_int {m : Int} : (Json.int n).Within (.int m) ↔ n = m :=
  (Json.within_scalar rfl).trans ⟨fun h => Number.int.inj (Json.num.inj h), fun h => h ▸ rfl⟩

theorem not_within_str (s : String) : ¬ (Json.int n).Within (.str s) :=
  (Json.within_scalar rfl).not.mpr nofun

theorem not_within_ofFloat (x : Float) : ¬ (Json.int n).Within (.ofFloat x) := by
  have hscalar : (Json.ofFloat x).isScalar = true := by
    rw [Json.ofFloat]
    split <;> rfl
  exact (Json.within_scalar hscalar).not.mpr (Literal.toJson_float_ne x n).symm

end

/-- A number just above the signed ones. -/
def largeRequest : Request where
  granularity := some "DAILY"
  start := some "2024-02-01"
  finish := some "2024-02-29"
  groupBy := [.str "provider"]
  filter := [{ key := "n", value := .int 9223372036854775809 }]

def largeQuery : AnalyzeQuery :=
  { regionQuery with
    filter := [⟨"n", .eq, .scalar (.float (Float.ofInt 9223372036854775809))⟩]
    fields := []
    fieldGroup := []
    sort := []
    page := none }

def largeStages : List Pipeline.Stage :=
  [.match (.and [.field "billed_date" (.compare .gte (.text "2024-02-01")),
      .field "billed_date" (.compare .lte (.text "2024-02-29")),
      .field "n" (.compare .eq (.float (Float.ofInt 9223372036854775809)))]),
    .group [("date", .path "billed_date"), ("provider", .path "provider")] [],
    .project [("_id", .drop), ("date", .expr (.path "_id.date")),
      ("provider", .expr (.path "_id.provider"))],
    .project [("_id", .drop), ("date", .keep), ("provider", .keep)]]

/-- It is compared with, and the pipeline has it nowhere. -/
theorem largeRequest_changed :
    AnalyzeQuery.ofRequest {} largeRequest = .ok largeQuery ∧
      (∃ plan, AnalyzePlan.ofQuery largeQuery = .ok plan ∧
        Pipeline.ofPlan {} plan = .ok largeStages) ∧
      (∃ c ∈ largeRequest.filter, ∃ op ∈ c.operator?,
        .int 9223372036854775809 ∈ op.compared c.value) ∧
      Json.isExact (.int 9223372036854775809) = true ∧
      ∀ s ∈ largeStages, ¬ (Json.int 9223372036854775809).Within s.toJson := by
  refine ⟨rfl, ⟨_, rfl, rfl⟩, ⟨_, List.mem_cons_self, .eq, rfl, List.mem_cons_self⟩, by decide, ?_⟩
  simp only [largeStages, List.forall_mem_cons, List.not_mem_nil, false_implies, implies_true,
    and_true]
  refine ⟨?_, ?_, ?_, ?_⟩
  · simp [Pipeline.Stage.toJson, Pipeline.Match.toJson, Pipeline.matchesToJson,
      Pipeline.FieldTest.toJson, Pipeline.operator, Literal.toJson, int_within_obj, int_within_arr,
      not_within_ofFloat, not_within_str]
  · simp [Pipeline.Stage.toJson, Pipeline.operator, Pipeline.groupKey, Pipeline.collected,
      Members.collect, Members.put, Pipeline.Expr.toJson, int_within_obj, not_within_str]
  · simp [Pipeline.Stage.toJson, Pipeline.operator, Pipeline.collected, Pipeline.Shown.toJson,
      Members.collect, Members.put, Pipeline.Expr.toJson, int_within_obj, int_within_int,
      not_within_str]
  · simp [Pipeline.Stage.toJson, Pipeline.operator, Pipeline.collected, Pipeline.Shown.toJson,
      Members.collect, Members.put, int_within_obj, int_within_int]

end CostQuery

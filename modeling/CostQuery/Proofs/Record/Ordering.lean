import CostQuery.Pipeline.Text
import CostQuery.Proofs.Members
import CostQuery.Proofs.Pipeline.Compile
import CostQuery.Proofs.Plan.Kept
import CostQuery.Proofs.Sql.Meaning
import CostQuery.Sql.Analyze

/-! The order of result rows: what a sort document says of two rows, and what a list of items to
order by says of them. -/

namespace CostQuery

def OrderKey.entry (k : OrderKey) : String × Bool := (k.ident, k.desc)

/-- The column is sorted by in one direction first, and in the other last. -/
def Contrary (keys : List (String × Bool)) (ident : String) : Prop :=
  keys.lookup ident ≠ keys.reverse.lookup ident

def directed (desc : Bool) (o : Ordering) : Ordering := if desc then o.swap else o

theorem directed_inj {o : Ordering} (h : o ≠ .eq) {desc desc' : Bool} :
    directed desc o = directed desc' o ↔ desc = desc' := by
  cases o <;> cases desc <;> cases desc' <;> simp_all [directed]

section
variable {V : Type} (cmp : V → V → Ordering) (keys : List (String × Bool)) (a b : String → V)

/-- The first key, with its direction, under which the rows differ. -/
def deciding? : Option (String × Bool) := keys.find? fun k => cmp (a k.1) (b k.1) != .eq

/-- Rows compare by the first key under which they differ. -/
def compareBy : Ordering :=
  match deciding? cmp keys a b with
  | none => .eq
  | some (ident, desc) => directed desc (cmp (a ident) (b ident))

variable {cmp keys a b} in
theorem differ_of_deciding {k : String × Bool} (h : deciding? cmp keys a b = some k) :
    cmp (a k.1) (b k.1) ≠ .eq := by
  simpa using List.find?_some h

theorem deciding_collect : deciding? cmp (Members.collect keys) a b =
    (deciding? cmp keys a b).map fun k => (k.1, (keys.reverse.lookup k.1).getD k.2) :=
  Members.find?_collect (fun ident => cmp (a ident) (b ident) != .eq) keys

/-- Where keys of one name are one member, with the last direction, rows compare the same unless
the key that decides has another direction first. -/
theorem compareBy_collect : compareBy cmp (Members.collect keys) a b = compareBy cmp keys a b ↔
    ∀ k ∈ deciding? cmp keys a b, ¬ Contrary keys k.1 := by
  rw [compareBy, compareBy, deciding_collect]
  cases hk : deciding? cmp keys a b with
  | none => simp
  | some k =>
    have hdiffer := differ_of_deciding hk
    have hfirst : keys.lookup k.1 = some k.2 :=
      Members.lookup_of_find? (fun ident => cmp (a ident) (b ident) != .eq) hk
    have hlast : keys.reverse.lookup k.1 ≠ none := by
      rw [Ne, List.lookup_eq_none_iff, not_forall]
      exact ⟨k, by simpa using List.mem_of_find?_eq_some hk⟩
    obtain ⟨last, hlast⟩ := Option.ne_none_iff_exists'.mp hlast
    simp only [Option.map_some, directed_inj hdiffer, hlast, Option.getD_some, Contrary,
      Option.mem_some_iff, forall_eq', hfirst, Option.some.injEq, not_not]
    exact eq_comm

end

variable {keys : List (String × Bool)} {ident : String}

theorem Contrary.exists_key (h : Contrary keys ident) : ∃ k ∈ keys, k.1 = ident := by
  by_contra hnone
  simp only [not_exists, not_and] at hnone
  refine h ?_
  rw [List.lookup_eq_none_iff.mpr fun k hk => by simpa using Ne.symm (hnone k hk),
    List.lookup_eq_none_iff.mpr fun k hk => by
      simpa using Ne.symm (hnone k (List.mem_reverse.mp hk))]

/-- All rows compare the same where no column is sorted by in two directions. -/
theorem compareBy_collect_all : (∀ (V : Type) (cmp : V → V → Ordering) (a b : String → V),
    compareBy cmp (Members.collect keys) a b = compareBy cmp keys a b) ↔
      ∀ ident, ¬ Contrary keys ident := by
  constructor
  · intro h ident hcontrary
    -- Two rows that differ in this column only.
    let a : String → Bool := fun _ => false
    let b : String → Bool := fun i => i == ident
    have hdiffer : ∀ i, compare (a i) (b i) ≠ .eq ↔ i = ident := by
      intro i
      by_cases hi : i = ident <;> simp [a, b, hi]
    obtain ⟨k, hk, hident⟩ := hcontrary.exists_key
    have hsome : (deciding? compare keys a b).isSome := List.find?_isSome.mpr
      ⟨k, hk, by simpa using (hdiffer k.1).mpr hident⟩
    obtain ⟨k, hk⟩ := Option.isSome_iff_exists.mp hsome
    have hident : k.1 = ident := (hdiffer k.1).mp (differ_of_deciding hk)
    exact (compareBy_collect compare keys a b).mp (h Bool compare a b) k hk (hident ▸ hcontrary)
  · exact fun h V cmp a b => (compareBy_collect cmp keys a b).mpr fun k _ => h k.1

/-! What the stores are told. -/

namespace Pipeline

/-- One ascends, minus one descends. -/
def direction? (v : Json) : Option Bool :=
  match v with
  | .num (.int 1) => some false
  | .num (.int (-1)) => some true
  | _ => none

/-- The keys of a sort document, in the order of its members. -/
def sortKeys? (stage : Json) : Option (List (String × Bool)) := do
  match ← stage.member? "$sort" with
  | .obj members => members.mapM fun (k, v) => (direction? v).map (k, ·)
  | _ => none

theorem directions (keys : List (String × Bool)) :
    (keys.map fun k => (k.1, Json.int (if k.2 then -1 else 1))).mapM
      (fun (k, v) => (direction? v).map (k, ·)) = some keys := by
  induction keys with
  | nil => rfl
  | cons k rest ih =>
    obtain ⟨ident, desc⟩ := k
    rw [List.map_cons, List.mapM_cons, ih]
    cases desc <;> rfl

/-- Keys of one name become one member, at the place of the first and with the direction of the
last. -/
theorem sortKeys_sort (keys : List (String × Bool)) :
    sortKeys? (Stage.toJson (.sort keys)) = some (Members.collect keys) := by
  have hcollect := Members.collect_map (fun desc : Bool => Json.int (if desc then -1 else 1)) keys
  have hmember : (Stage.toJson (.sort keys)).member? "$sort" =
      some (.obj (Members.collect (keys.map fun k => (k.1, Json.int (if k.2 then -1 else 1))))) :=
    rfl
  rw [sortKeys?, hmember, hcollect]
  exact directions _

/-- A sort document comes from the order of the plan. -/
theorem order_of_sort {w : Warehouse} {s : CostQuery.Stage} {out : List Stage}
    {keys : List (String × Bool)} (h : stages w s = .ok out) (hkeys : .sort keys ∈ out) :
    ∃ order, s = .sort order ∧ keys = order.map OrderKey.entry := by
  cases s with
  | sort order =>
    obtain rfl := Except.ok.inj h
    exact ⟨order, rfl, Stage.sort.inj (List.mem_singleton.mp hkeys)⟩
  | group g =>
    simp only [stages, groupStages, bind_ok, pure_ok] at h
    obtain ⟨key, -, accumulators, -, rfl⟩ := h
    simp at hkeys
  | facet f =>
    obtain rfl := Except.ok.inj h
    simp [facetStages] at hkeys
  | unwind | «match» | skip | limit | project =>
    obtain rfl := Except.ok.inj h
    cases List.mem_singleton.mp hkeys

theorem sort_of_sortKeys {s : Stage} {doc : List (String × Bool)}
    (h : sortKeys? s.toJson = some doc) : ∃ keys, s = .sort keys ∧ doc = Members.collect keys := by
  cases s with
  | sort keys => exact ⟨keys, rfl, Option.some.inj (h.symm.trans (sortKeys_sort keys))⟩
  | unwind | «match» | group | project | skip | limit => cases h

end Pipeline

namespace Sql
variable {p : AnalyzePlan} {r : Reader} {statement : Statement}

def OrderItem.key? (item : OrderItem) : Option (String × Bool) :=
  match item.expr with
  | .column name => some (name.text, item.desc)
  | _ => none

theorem key_of_orderItem {k : OrderKey} {item : OrderItem} (h : orderItem k = .ok item) :
    item.key? = some k.entry := by
  obtain ⟨e, he, rfl⟩ := bind_pure_ok.mp h
  obtain ⟨n, hn, rfl⟩ := Expr.ofName_ok he
  exact congrArg (fun ident => some (ident, k.desc)) hn

theorem order_of_paged {body body' : Select} (h : paged p body = .ok body') :
    orderOf p = .ok body'.order := by
  obtain ⟨order, horder, rfl⟩ := bind_pure_ok.mp h
  exact horder

theorem order_of_analysis (h : r.analysis p = .ok statement) :
    orderOf p = .ok statement.body.order := by
  rw [Reader.analysis] at h
  split at h
  · cases h
  · obtain ⟨base, -, h⟩ := bind_ok.mp h
    split at h
    · simp only [bind_ok, pure_ok] at h
      obtain ⟨facets, -, body, -, body', hbody, rfl⟩ := h
      exact order_of_paged hbody
    · simp only [bind_ok, pure_ok] at h
      obtain ⟨body, -, body', hbody, rfl⟩ := h
      exact order_of_paged hbody

/-- The items to order by are the keys of the plan, one for one. -/
theorem keys_of_analysis (h : r.analysis p = .ok statement) :
    statement.body.order.mapM OrderItem.key? =
      some (((p.stages.findSome? Stage.sort?).getD []).map OrderKey.entry) :=
  mapM_of_forall₂ ((mapM_ok (order_of_analysis h)).imp fun _ _ => key_of_orderItem)

end Sql

namespace AnalyzeQuery
variable {limits : RangeLimits} {r : Request} {q : AnalyzeQuery} {plan : AnalyzePlan}
  {keys : List OrderKey}

theorem order_of_sort (h : AnalyzePlan.ofQuery q = .ok plan) (hsort : .sort keys ∈ plan.stages) :
    (∀ keys', .sort keys' ∈ plan.stages → keys' = keys) ∧
      (plan.stages.findSome? Stage.sort?).getD [] = keys := by
  obtain ⟨-, rfl⟩ := AnalyzePlan.ofQuery_ok h
  have hmem : ∀ keys', .sort keys' ∈ q.stages q.draft →
      keys' = q.draft.order (q.draft.visible q.isFaceted) q.sort := by
    intro keys' hkeys
    have := (q.mem_stages q.draft).mp hkeys
    simp only [Stage.sort.injEq, reduceCtorEq, and_false, exists_false, or_false, false_or,
      or_self] at this
    exact this.2
  rw [q.sort_stages]
  exact ⟨fun keys' hkeys => (hmem keys' hkeys).trans (hmem keys hsort).symm, (hmem keys hsort).symm⟩

/-- A plan that sorts has one sort document in its pipeline. The document orders two rows as the
items of the SQL do, unless the item that decides sorts a column that is sorted by in the other
direction last: the document has kept the last direction only. -/
theorem orders_alike_iff (hq : ofRequest limits r = .ok q) (h : AnalyzePlan.ofQuery q = .ok plan)
    (hsort : .sort keys ∈ plan.stages) (w : Warehouse) :
    ∃ ss doc, Pipeline.ofPlan w plan = .ok ss ∧
      (∀ doc', (∃ s ∈ ss, Pipeline.sortKeys? s.toJson = some doc') ↔ doc' = doc) ∧
      (∀ statement, Sql.Statement.ofAnalyzePlan w plan = .ok statement →
        statement.body.order.mapM Sql.OrderItem.key? = some (keys.map OrderKey.entry)) ∧
      (∀ (V : Type) (cmp : V → V → Ordering) (a b : String → V),
        compareBy cmp doc a b = compareBy cmp (keys.map OrderKey.entry) a b ↔
          ∀ k ∈ deciding? cmp (keys.map OrderKey.entry) a b,
            ¬ Contrary (keys.map OrderKey.entry) k.1) ∧
      ((∀ (V : Type) (cmp : V → V → Ordering) (a b : String → V),
        compareBy cmp doc a b = compareBy cmp (keys.map OrderKey.entry) a b) ↔
          ∀ ident, ¬ Contrary (keys.map OrderKey.entry) ident) := by
  obtain ⟨ss, hss⟩ := exists_pipeline hq h w
  obtain ⟨honly, horder⟩ := order_of_sort h hsort
  refine ⟨ss, Members.collect (keys.map OrderKey.entry), hss, fun doc' => ?_,
    fun statement hstatement => horder ▸ Sql.keys_of_analysis hstatement,
    fun V cmp a b => compareBy_collect cmp _ a b, compareBy_collect_all⟩
  constructor
  · rintro ⟨s, hs, hdoc⟩
    obtain ⟨keys', rfl, rfl⟩ := Pipeline.sort_of_sortKeys hdoc
    obtain ⟨stage, hstage, out, hout, hmem⟩ := (Pipeline.mem_ofPlan hss).mp hs
    obtain ⟨order, rfl, rfl⟩ := Pipeline.order_of_sort hout hmem
    rw [honly order hstage]
  · rintro rfl
    exact ⟨_, (Pipeline.mem_ofPlan hss).mpr ⟨_, hsort, _, rfl, List.mem_singleton_self _⟩,
      Pipeline.sortKeys_sort _⟩

end AnalyzeQuery

theorem orders_alike_region :
    ∃ plan ss doc, AnalyzePlan.ofQuery regionQuery = .ok plan ∧
      .sort [⟨"_total_cost", true⟩] ∈ plan.stages ∧ Pipeline.ofPlan {} plan = .ok ss ∧
      (∃ s ∈ ss, Pipeline.sortKeys? s.toJson = some doc) ∧
      ∀ (V : Type) (cmp : V → V → Ordering) (a b : String → V),
        compareBy cmp doc a b = compareBy cmp [("_total_cost", true)] a b := by
  have hsort : Stage.sort [⟨"_total_cost", true⟩] ∈ regionQuery.stages regionQuery.draft :=
    List.mem_of_getElem? (i := 3) rfl
  obtain ⟨ss, doc, hss, hdoc, -, -, hall⟩ :=
    AnalyzeQuery.orders_alike_iff ofRequest_regionRequest rfl hsort {}
  refine ⟨_, ss, doc, rfl, hsort, hss, (hdoc doc).mpr rfl, hall.mpr fun ident hcontrary => ?_⟩
  exact hcontrary rfl

/-- The costs sorted by in both directions. -/
def twiceRequest : Request :=
  { regionRequest with
    fieldGroup := [], sort := [{ key := "cost", desc := true }, { key := "cost", desc := false }] }

def twiceQuery : AnalyzeQuery :=
  { regionQuery with fieldGroup := [], sort := [⟨"cost", true⟩, ⟨"cost", false⟩] }

/-- The document sorts by ascending costs, the SQL by descending ones. -/
theorem twiceRequest_orders_differ :
    ∃ plan ss statement doc items,
      AnalyzeQuery.ofRequest {} twiceRequest = .ok twiceQuery ∧
      AnalyzePlan.ofQuery twiceQuery = .ok plan ∧ Pipeline.ofPlan {} plan = .ok ss ∧
      (∃ s ∈ ss, Pipeline.sortKeys? s.toJson = some doc) ∧
      Sql.Statement.ofAnalyzePlan {} plan = .ok statement ∧
      statement.body.order.mapM Sql.OrderItem.key? = some items ∧
      ∃ a b : String → Nat,
        compareBy compare doc a b = .lt ∧ compareBy compare items a b = .gt := by
  refine ⟨_, _, _, [("cost", false)], [("cost", true), ("cost", false)], rfl, rfl, rfl,
    ⟨_, List.mem_of_getElem? (i := 3) rfl, rfl⟩, rfl, rfl, fun _ => 1, fun _ => 2, ?_⟩
  decide

end CostQuery

import CostQuery.Proofs.Outcome
import CostQuery.Proofs.Sql.Meaning
import CostQuery.Sql.Analyze

/-! The columns that expressions read, and the windows in them. -/

namespace CostQuery.Sql

namespace Expr

mutual

/-- The expression, and every expression in it. -/
def nodes : Expr → List Expr
  | .subscript e key => .subscript e key :: nodes e
  | .call f args => .call f args :: nodesOfAll args
  | .cast e type => .cast e type :: nodes e
  | .compare op a b => .compare op a b :: (nodes a ++ nodes b)
  | .arithmetic op a b => .arithmetic op a b :: (nodes a ++ nodes b)
  | .isNull e negated => .isNull e negated :: nodes e
  | .oneOf e items negated => .oneOf e items negated :: nodes e
  | .ilike e pattern negated => .ilike e pattern negated :: nodes e
  | .rlike e pattern => .rlike e pattern :: nodes e
  | .and parts => .and parts :: nodesOfAll parts
  | .or parts => .or parts :: nodesOfAll parts
  | .ifThenElse test yes no => .ifThenElse test yes no :: (nodes test ++ nodes yes ++ nodes no)
  | .over e partition => .over e partition :: nodes e
  | .struct slots => .struct slots :: nodesOfSlots slots
  | .column n => [.column n]
  | .literal l => [.literal l]
  | .star => [.star]
  | .now => [.now]
  | .today => [.today]
  | .never => [.never]
  | .interval amount unit => [.interval amount unit]

def nodesOfAll : List Expr → List Expr
  | [] => []
  | e :: rest => nodes e ++ nodesOfAll rest

def nodesOfSlots : List (String × Expr) → List Expr
  | [] => []
  | (_, e) :: rest => nodes e ++ nodesOfSlots rest

end

def nodeReads : Expr → List String
  | .column n => [n.text]
  | .over _ partition => partition.map (·.text)
  | _ => []

def nodeWindows : Expr → List (List String)
  | .over _ partition => [partition.map (·.text)]
  | _ => []

/-- The columns that are read, those of partitions too. -/
def reads (e : Expr) : List String := e.nodes.flatMap nodeReads

/-- The partitions of the windows. -/
def windows (e : Expr) : List (List String) := e.nodes.flatMap nodeWindows

theorem nodesOfAll_eq (es : List Expr) : nodesOfAll es = es.flatMap nodes := by
  induction es with
  | nil => rfl
  | cons e rest ih => exact congrArg (nodes e ++ ·) ih

theorem nodesOfSlots_eq (slots : List (String × Expr)) :
    nodesOfSlots slots = slots.flatMap (·.2.nodes) := by
  induction slots with
  | nil => rfl
  | cons slot rest ih => exact congrArg (slot.2.nodes ++ ·) ih

section
variable {f : Function} {args : List Expr} {e a b test yes no : Expr} {n : Name}
  {partition : List Name} {slots : List (String × Expr)}

@[simp] theorem reads_column : (column n).reads = [n.text] := rfl

@[simp] theorem reads_star : star.reads = [] := rfl

@[simp] theorem reads_int (n : Int) : (int n).reads = [] := rfl

@[simp] theorem reads_call : (call f args).reads = args.flatMap reads := by
  change (nodesOfAll args).flatMap nodeReads = _
  rw [nodesOfAll_eq, List.flatMap_assoc]
  rfl

@[simp] theorem reads_compare {op : Comparison} :
    (compare op a b).reads = a.reads ++ b.reads :=
  List.flatMap_append

@[simp] theorem reads_arithmetic {op : Arithmetic} :
    (arithmetic op a b).reads = a.reads ++ b.reads :=
  List.flatMap_append

@[simp] theorem reads_ifThenElse :
    (ifThenElse test yes no).reads = test.reads ++ yes.reads ++ no.reads :=
  List.flatMap_append.trans (congrArg (· ++ no.reads) List.flatMap_append)

@[simp] theorem reads_over :
    (Expr.over e partition).reads = partition.map (·.text) ++ e.reads := rfl

@[simp] theorem reads_struct : (struct slots).reads = slots.flatMap (·.2.reads) := by
  change (nodesOfSlots slots).flatMap nodeReads = _
  rw [nodesOfSlots_eq, List.flatMap_assoc]
  rfl

@[simp] theorem windows_column : (column n).windows = [] := rfl

@[simp] theorem windows_literal (l : Literal) : (literal l).windows = [] := rfl

@[simp] theorem windows_star : star.windows = [] := rfl

@[simp] theorem windows_int (n : Int) : (int n).windows = [] := rfl

@[simp] theorem windows_subscript {key : String} : (subscript e key).windows = e.windows := rfl

@[simp] theorem windows_cast {type : ColumnType} : (cast e type).windows = e.windows := rfl

@[simp] theorem windows_isNull {negated : Bool} : (isNull e negated).windows = e.windows := rfl

@[simp] theorem windows_call : (call f args).windows = args.flatMap windows := by
  change (nodesOfAll args).flatMap nodeWindows = _
  rw [nodesOfAll_eq, List.flatMap_assoc]
  rfl

@[simp] theorem windows_compare {op : Comparison} :
    (compare op a b).windows = a.windows ++ b.windows :=
  List.flatMap_append

@[simp] theorem windows_arithmetic {op : Arithmetic} :
    (arithmetic op a b).windows = a.windows ++ b.windows :=
  List.flatMap_append

@[simp] theorem windows_ifThenElse :
    (ifThenElse test yes no).windows = test.windows ++ yes.windows ++ no.windows :=
  List.flatMap_append.trans (congrArg (· ++ no.windows) List.flatMap_append)

@[simp] theorem windows_over :
    (Expr.over e partition).windows = partition.map (·.text) :: e.windows := rfl

@[simp] theorem windows_struct : (struct slots).windows = slots.flatMap (·.2.windows) := by
  change (nodesOfSlots slots).flatMap nodeWindows = _
  rw [nodesOfSlots_eq, List.flatMap_assoc]
  rfl

end
end Expr

variable {r : Reader} {c : Column} {e value : Expr} {root : String} {zero : Bool}

/-! No window is in what is read of a record. -/

theorem windows_ofName {name : String} (h : Expr.ofName name = .ok e) : e.windows = [] := by
  obtain ⟨n, -, rfl⟩ := Expr.ofName_ok h
  rfl

theorem windows_typed : (r.typed root value zero).windows = value.windows := by
  rw [Reader.typed]
  split
  · cases zero <;> simp
  · simp

theorem windows_dateBucket {p : Precision} (h : r.dateBucket p = .ok e) : e.windows = [] := by
  obtain ⟨column, hn, rfl⟩ := bind_pure_ok.mp h
  simp [windows_ofName hn]

theorem windows_read (h : r.read c zero = .ok e) : e.windows = [] := by
  have hread := Reader.read_readAs h
  generalize r.keyWithin? c = key? at hread
  cases hread with
  | whole n => rfl
  | date bucket => exact windows_dateBucket bucket
  | typed n key => exact windows_typed

theorem windows_chained {op : Arithmetic} {es : List Expr} (hes : ∀ e ∈ es, e.windows = [])
    (h : chained op es = .ok e) : e.windows = [] := by
  have happlied {l r : Expr} (hl : l.windows = []) (hr : r.windows = []) :
      (applied op l r).windows = [] := by
    cases op <;> simp [applied, hl, hr]
  have hfold (rest : List Expr) (hrest : ∀ e ∈ rest, e.windows = []) {first : Expr}
      (hfirst : first.windows = []) : (rest.foldl (applied op) first).windows = [] :=
    List.foldlRecOn (motive := fun e => e.windows = []) rest (applied op) hfirst
      fun _ h e he => happlied h (hrest e he)
  cases es with
  | nil => cases h
  | cons first rest =>
    obtain rfl := Except.ok.inj h
    rw [List.forall_mem_cons] at hes
    exact hfold rest hes.2 hes.1

mutual

theorem windows_computed : (x : Computed) → ∀ e, r.computed x = .ok e → e.windows = []
  | .column c, e, h => windows_read h
  | .literal l, e, h => by
    obtain rfl := Except.ok.inj h
    rfl
  | .size c, e, h => by
    obtain ⟨list, hlist, rfl⟩ := bind_pure_ok.mp h
    simp [sizeOf, windows_read hlist]
  | .arithmetic op operands, e, h => by
    obtain ⟨es, hes, h⟩ := bind_ok.mp h
    exact windows_chained (windows_computedAll operands es hes) h

theorem windows_computedAll : (xs : List Computed) → ∀ es, r.computedAll xs = .ok es →
    ∀ e ∈ es, e.windows = []
  | [], es, h => by
    obtain rfl := Except.ok.inj h
    exact fun e he => absurd he List.not_mem_nil
  | x :: rest, es, h => by
    obtain ⟨e, es, he, hes, rfl⟩ := bind_bind_pure_ok.mp h
    exact List.forall_mem_cons.mpr ⟨windows_computed x e he, windows_computedAll rest es hes⟩

end

theorem windows_keyExpr {k : GroupKey} (h : r.keyExpr k = .ok e) : e.windows = [] := by
  rw [Reader.keyExpr] at h
  split at h
  · exact windows_read h
  · exact windows_dateBucket h
  · exact windows_computed _ _ h

theorem windows_aggregateExpr {f : AggregateField} (h : r.aggregateExpr f = .ok e) :
    e.windows = [] := by
  rw [Reader.aggregateExpr] at h
  split at h
  · obtain rfl := Except.ok.inj h
    rfl
  · cases h
  · obtain ⟨column, hc, rfl⟩ := bind_pure_ok.mp h
    simp [windows_read hc]
  · obtain ⟨slots, hslots, rfl⟩ := bind_pure_ok.mp h
    have hnone : ∀ slot ∈ slots, slot.2.windows = [] := by
      intro slot hslot
      obtain ⟨named, -, h⟩ := exists_of_forall₂ (mapM_ok hslots).flip hslot
      obtain ⟨column, hc, rfl⟩ := bind_pure_ok.mp h
      exact windows_read hc
    simpa using hnone

end CostQuery.Sql

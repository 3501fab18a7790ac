import CostQuery.Plan.Basic
import Mathlib.Algebra.BigOperators.Group.List.Lemmas
import Mathlib.Algebra.Order.Field.Rat
import Mathlib.Data.List.Dedup
import Mathlib.Data.List.MinMax

/-! What the groupings of a plan compute, in exact numbers. -/

namespace CostQuery
variable {Row V : Type}

/-- How a store reads its rows: the value of a key, and the number in a column, if it is not
null. -/
structure RowReader (Row V : Type) where
  key : KeySource → Row → V
  number : Column → Row → Option ℚ

/-- What an aggregate goes over. Rows are never null. -/
def AggregateInput.numbers (input : AggregateInput) (read : RowReader Row V) (rows : List Row) :
    List ℚ :=
  match input with
  | .column c => rows.filterMap (read.number c)
  | .rows | .slots _ => rows.map fun _ => 1

/-- The value over the numbers of a group; lists are no numbers. -/
def Aggregate.over : Aggregate → List ℚ → Option ℚ
  | .sum, xs => some xs.sum
  | .average, xs => if xs = [] then none else some (xs.sum / xs.length)
  | .max, xs => xs.max?
  | .min, xs => xs.min?
  | .count, xs => some xs.length
  | .push, _ | .addToSet, _ => none

/-- What the first grouping makes of a group of rows. -/
structure GroupRow (V : Type) where
  keys : List (String × V)
  numbers : List (String × Option ℚ)

namespace Group

/-- The keys of a row, by which it is grouped. -/
def keysOf (g : Group) (read : RowReader Row V) (row : Row) : List (String × V) :=
  g.keys.map fun k => (k.ident, read.key k.source row)

def members [DecidableEq V] (g : Group) (read : RowReader Row V) (rows : List Row)
    (keys : List (String × V)) : List Row :=
  rows.filter fun row => g.keysOf read row = keys

def row [DecidableEq V] (g : Group) (read : RowReader Row V) (rows : List Row)
    (keys : List (String × V)) : GroupRow V where
  keys := keys
  numbers := g.fields.map fun c =>
    (c.ident, c.aggregate.over (c.input.numbers read (g.members read rows keys)))

/-- One row for each combination of keys that there is. -/
def rows [DecidableEq V] (g : Group) (read : RowReader Row V) (rows : List Row) :
    List (GroupRow V) :=
  (rows.map (g.keysOf read)).dedup.map (g.row read rows)

end Group

/-- The values of the keys that tell partitions apart. -/
def Facet.partitionOf (facet : Facet) (keys : List (String × V)) : List (Option V) :=
  facet.partitionKeys.map fun ident => keys.lookup ident

/-- The numbers of a column that are not null. -/
def GroupRow.column (ident : String) (rows : List (GroupRow V)) : List ℚ :=
  rows.filterMap fun row => (row.numbers.lookup ident).join

/-- The value of a total over the groups of a partition. -/
def Total.over (total : Total) (rows : List (GroupRow V)) : Option ℚ :=
  match total with
  | .sum ident => some (GroupRow.column ident rows).sum
  | .min ident => (GroupRow.column ident rows).min?
  | .max ident => (GroupRow.column ident rows).max?
  | .ratio s c =>
    let counted := (GroupRow.column c rows).sum
    some (if counted = 0 then 0 else (GroupRow.column s rows).sum / counted)

namespace AggregateInput
variable (read : RowReader Row V)

theorem numbers_perm (input : AggregateInput) {rows rows' : List Row} (h : rows.Perm rows') :
    (input.numbers read rows).Perm (input.numbers read rows') := by
  cases input with
  | column c => exact h.filterMap _
  | rows | slots => exact h.map _

theorem numbers_flatten (input : AggregateInput) (rowss : List (List Row)) :
    (rowss.map (input.numbers read)).flatten = input.numbers read rowss.flatten := by
  cases input with
  | column c =>
    rw [numbers, List.filterMap_flatten]
    rfl
  | rows | slots =>
    rw [numbers, List.map_flatten]
    rfl

end AggregateInput

/-! Groups of groups hold every row once. -/

theorem flatMap_filter_perm {K : Type} [DecidableEq K] (key : Row → K) {keys : List K}
    {rows : List Row} (hnodup : keys.Nodup) (hkeys : ∀ row ∈ rows, key row ∈ keys) :
    (keys.flatMap fun k => rows.filter fun row => key row = k).Perm rows := by
  induction keys generalizing rows with
  | nil =>
    obtain rfl : rows = [] :=
      List.eq_nil_iff_forall_not_mem.mpr fun row hrow => List.not_mem_nil (hkeys row hrow)
    exact .nil
  | cons k keys ih =>
    obtain ⟨hk, hnodup⟩ := List.nodup_cons.mp hnodup
    have hothers : ∀ row ∈ rows.filter fun row => !decide (key row = k), key row ∈ keys := by
      intro row hrow
      obtain ⟨hrow, hne⟩ := List.mem_filter.mp hrow
      exact (List.mem_cons.mp (hkeys row hrow)).resolve_left (by simpa using hne)
    have hrest := ih hnodup hothers
    have hsame : (keys.flatMap fun k' => (rows.filter fun row => !decide (key row = k)).filter
        fun row => key row = k') = keys.flatMap fun k' => rows.filter fun row => key row = k' := by
      refine List.flatMap_congr fun k' hk' => ?_
      rw [List.filter_filter]
      refine List.filter_congr fun row _ => ?_
      by_cases h : key row = k'
      · have hne : k' ≠ k := fun heq => hk (heq ▸ hk')
        simp [h, hne]
      · simp [h]
    rw [hsame] at hrest
    exact (hrest.append_left _).trans (List.filter_append_perm _ rows)

/-! The best of the bests is the best of all. -/

/-- The first in an order is picked, if there is any. -/
structure Picks (le : ℚ → ℚ → Prop) (pick : List ℚ → Option ℚ) : Prop where
  trans : ∀ {a b c}, le a b → le b c → le a c
  none_iff : ∀ {xs}, pick xs = none ↔ xs = []
  some_iff : ∀ {xs a}, pick xs = some a ↔ a ∈ xs ∧ ∀ b ∈ xs, le a b

theorem picks_min : Picks (· ≤ ·) List.min? :=
  ⟨le_trans, List.min?_eq_none_iff, List.min?_eq_some_iff⟩

theorem picks_max : Picks (· ≥ ·) List.max? :=
  ⟨fun h h' => le_trans h' h, List.max?_eq_none_iff, List.max?_eq_some_iff⟩

theorem Picks.flatten {le : ℚ → ℚ → Prop} {pick : List ℚ → Option ℚ} (h : Picks le pick)
    {xss : List (List ℚ)} {xs : List ℚ} (hperm : xss.flatten.Perm xs) :
    pick (xss.filterMap pick) = pick xs := by
  refine Option.ext fun a => ?_
  rw [h.some_iff, h.some_iff]
  simp only [List.mem_filterMap, ← hperm.mem_iff, List.mem_flatten]
  constructor
  · rintro ⟨⟨ys, hys, ha⟩, hle⟩
    obtain ⟨hmem, -⟩ := h.some_iff.mp ha
    refine ⟨⟨ys, hys, hmem⟩, ?_⟩
    rintro b ⟨zs, hzs, hb⟩
    obtain ⟨c, hc⟩ := Option.ne_none_iff_exists'.mp
      (mt h.none_iff.mp (List.ne_nil_of_mem hb))
    exact h.trans (hle c ⟨zs, hzs, hc⟩) ((h.some_iff.mp hc).2 b hb)
  · rintro ⟨⟨ys, hys, hmem⟩, hle⟩
    refine ⟨⟨ys, hys, h.some_iff.mpr ⟨hmem, fun b hb => hle b ⟨ys, hys, hb⟩⟩⟩, ?_⟩
    rintro b ⟨zs, hzs, hb⟩
    exact hle b ⟨zs, hzs, (h.some_iff.mp hb).1⟩

end CostQuery

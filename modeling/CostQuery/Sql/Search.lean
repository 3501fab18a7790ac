import CostQuery.Sql.Analyze

/-! Search plans as SQL. -/

namespace CostQuery.Sql

namespace Reader

/-- Filters that leave the billed period open are bounded to the last months. -/
def searchFilter (r : Reader) (p : SearchPlan) : Compiled (Option Expr) := do
  let test ← p.predicate.mapM r.filter
  let window ← if p.hasDateFilter then pure none else r.recentMonths.map some
  match test, window with
  | some a, some b => return some (.and [a, b])
  | some a, none => return some a
  | none, window => return window

def columnItem (r : Reader) (c : Column) : Compiled Item := do
  named (← r.column c) (Alias.ofName c.key)

def computedItem (r : Reader) (c : String × Computed) : Compiled Item := do
  named (← r.computed c.2) (Alias.ofName c.1)

def projected (r : Reader) : Projection → Compiled (List Item)
  | .all => .ok [bare .star]
  | .columns cs => cs.mapM r.columnItem

/-- Every row carries the number of rows on all pages. -/
def countItem : Item := ⟨.over (.call .count [.star]) [], some windowCountName⟩

def sortItem (r : Reader) (s : Column × Bool) : Compiled OrderItem := do
  return ⟨← r.column s.1, s.2⟩

/-- Rows are skipped only where a page is asked for. -/
def listed (r : Reader) (l : Listing) (rows : Select) : Compiled Select := do
  let columns ← r.projected l.projection
  let computed ← l.computed.mapM r.computedItem
  let order ← l.sort.mapM r.sortItem
  return { rows with
    items := columns ++ computed ++ [countItem]
    order
    limit := l.limit
    offset := l.limit.map fun _ => l.skip }

def search (r : Reader) (p : SearchPlan) : Compiled Statement := do
  let table ← tableName r.warehouse.table
  let explode ← r.explode
  let filter ← r.searchFilter p
  let rows : Select := { items := [], source := .table table, explode, filter }
  match p.mode with
  | .count =>
    return { body := { rows with items := [⟨.call .count [.star], some totalCountName⟩] } }
  | .distinct c =>
    return { body := { rows with
      distinct := true
      items := [⟨← r.column c, some valuesName⟩] } }
  | .rows l => return { body := ← r.listed l rows }

end Reader

def Statement.ofSearchPlan (w : Warehouse) (p : SearchPlan) : Compiled Statement :=
  Reader.search ⟨w, p.unwind⟩ p

end CostQuery.Sql

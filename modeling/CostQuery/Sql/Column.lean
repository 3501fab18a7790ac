import CostQuery.Calendar.Date
import CostQuery.Column
import CostQuery.Settings
import CostQuery.Sql.Expr
import CostQuery.Text.Slice

/-! Columns of cost records, as SQL reads them. -/

namespace CostQuery.Sql

/-- The warehouse read from, and the list column that is spread over rows. -/
structure Reader where
  warehouse : Warehouse
  unwind : Option Column

/-- A column as it is stored. -/
def stored (c : Column) : Compiled Expr := do
  let root ← Expr.ofName c.root
  match c.sub with
  | none => return root
  | some sub => return .subscript root sub

/-- What follows a column's key, and a dot, in the key of a column beneath it. -/
def keyBeneath? (c above : Column) : Option String :=
  (Text.after? c.key (above.key.utf8ByteSize + 1)).filter (· ≠ "")

namespace Reader

/-- The billed date, cut out of the billed time. -/
def dateBucket (r : Reader) (p : Precision) : Compiled Expr := do
  return .call .substring [← Expr.ofName r.warehouse.billedAtColumn, .int 1, .int p.width]

def partition (r : Reader) : Compiled Expr := Expr.ofName r.warehouse.partitionColumn

/-- Values of maps of numbers are decimals, and those of other maps are texts. A missing number
may count as zero. -/
def typed (r : Reader) (root : String) (value : Expr) (zero : Bool) : Expr :=
  if r.warehouse.isNumericRoot root then
    let decimal := Expr.cast value
      (.decimal r.warehouse.decimalPrecision r.warehouse.decimalScale)
    if zero then .call .coalesce [decimal, .int 0] else decimal
  else .cast value .string

/-- The spread item, or the value of a key in it. -/
def unwound (r : Reader) (c above : Column) (zero : Bool) : Expr :=
  match keyBeneath? c above with
  | none => .column unwoundName
  | some key => r.typed c.root (.subscript (.column unwoundName) key) zero

/-- A column that is not spread: a date, a whole column, or the value of a key in a map. -/
def plain (r : Reader) (c : Column) (zero : Bool) : Compiled Expr :=
  match c.sub, Precision.ofColumn? c.root with
  | none, some p => r.dateBucket p
  | none, none => stored c
  | some _, _ => do return r.typed c.root (← stored c) zero

def read (r : Reader) (c : Column) (zero : Bool) : Compiled Expr :=
  match r.unwind with
  | some above => if c.isUnder above then .ok (r.unwound c above zero) else r.plain c zero
  | none => r.plain c zero

/-- Keys and aggregates read a missing number as zero. -/
def column (r : Reader) (c : Column) : Compiled Expr := r.read c true

/-- Tests see what is stored, null too. -/
def tested (r : Reader) (c : Column) : Compiled Expr := r.read c false

/-- The list to spread. -/
def explode (r : Reader) : Compiled (Option Expr) :=
  match r.unwind with
  | none => .ok none
  | some c => (stored c).map some

end Reader
end CostQuery.Sql

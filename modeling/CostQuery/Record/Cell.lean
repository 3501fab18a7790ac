import CostQuery.Record.Basic
import CostQuery.Text.Utf8

/-! Cells of warehouse rows. -/

namespace CostQuery

inductive Cell where
  | null
  | bool (value : Bool)
  | int (value : Int)
  | float (value : Float)
  | decimal (value : Decimal.Bounded)
  | text (value : String)
  | bytes (value : List UInt8)
  | list (items : List Cell)
  /-- Maps and structs, in the order of their columns. -/
  | map (entries : List (String × Cell))

/-- Columns and their cells, in order. -/
abbrev Row := List (String × Cell)

mutual

def Cell.toJson : Cell → Json
  | .null => .null
  | .bool b => .bool b
  | .int n => .int n
  | .float x => .ofFloat x
  | .decimal d => decimalToJson d
  | .text s => .str s
  | .bytes bytes => .str (Text.ofBytes bytes)
  | .list items => .arr (cellsToJson items)
  | .map entries => .obj (Members.collect (entriesToJson entries))

def cellsToJson : List Cell → List Json
  | [] => []
  | c :: rest => c.toJson :: cellsToJson rest

def entriesToJson : List (String × Cell) → List (String × Json)
  | [] => []
  | (k, c) :: rest => (k, c.toJson) :: entriesToJson rest

end

theorem cellsToJson_eq_map (cells : List Cell) : cellsToJson cells = cells.map Cell.toJson := by
  induction cells with
  | nil => rfl
  | cons c rest ih => rw [cellsToJson, ih, List.map_cons]

theorem entriesToJson_eq_map (entries : List (String × Cell)) :
    entriesToJson entries = entries.map fun e => (e.1, e.2.toJson) := by
  induction entries with
  | nil => rfl
  | cons e rest ih => rw [entriesToJson, ih, List.map_cons]

/-- Of columns of one name the last gives the value. -/
def Record.ofRow (row : Row) : Record := Members.collect (entriesToJson row)

def Record.ofRows (rows : List Row) : List Record := rows.map ofRow

end CostQuery

import CostQuery.Proofs.Query.Checked
import CostQuery.Proofs.Store.Value
import CostQuery.Settings
import CostQuery.Sql.Filter

/-! The values of computed columns, and the records whose columns they compute with. -/

namespace CostQuery

namespace Value

/-- A number, or none. -/
def IsNumeric (v : Value) : Prop := v = .null ∨ ∃ q, v = .number q

/-- A list, or none. -/
def IsListed (v : Value) : Prop := v = .null ∨ ∃ n, v = .list n

/-- A text, or none. -/
def IsTextual (v : Value) : Prop := v = .null ∨ ∃ s, v = .text s

/-- A missing list has no items. -/
def size : Value → Value
  | .list n => .number n
  | _ => .number 0

/-- Null where a number is missing, or is divided by zero. -/
def applied (op : Arithmetic) : Value → Value → Value
  | .number a, .number b => (arithmetic? op a b).elim .null .number
  | _, _ => .null

/-- From the left. -/
def chained (op : Arithmetic) : List Value → Value
  | [] => .null
  | first :: rest => rest.foldl (applied op) first

theorem isNumeric_number (q : Rat) : (number q).IsNumeric := .inr ⟨q, rfl⟩

theorem isNumeric_size (v : Value) : v.size.IsNumeric := by
  cases v <;> exact isNumeric_number _

theorem isNumeric_applied (op : Arithmetic) (a b : Value) : (applied op a b).IsNumeric := by
  unfold applied
  split
  · cases arithmetic? op _ _ with
    | none => exact .inl rfl
    | some q => exact isNumeric_number q
  · exact .inl rfl

theorem isNumeric_foldl {op : Arithmetic} {vs : List Value} {v : Value} (hv : v.IsNumeric) :
    (vs.foldl (applied op) v).IsNumeric := by
  induction vs generalizing v with
  | nil => exact hv
  | cons w rest ih => exact ih (isNumeric_applied op v w)

theorem isNumeric_chained {op : Arithmetic} {vs : List Value} (h : ∀ v ∈ vs, v.IsNumeric) :
    (chained op vs).IsNumeric := by
  cases vs with
  | nil => exact .inl rfl
  | cons first rest => exact isNumeric_foldl (h first List.mem_cons_self)

/-- Compiled operands that are applied one by one give the values applied one by one. -/
theorem foldl_applied {E : Type} {op : Arithmetic} {apply : E → E → E} {R : E → Value → Prop}
    (step : ∀ {l r a b}, R l a → R r b → a.IsNumeric → b.IsNumeric →
      R (apply l r) (applied op a b))
    {es : List E} {vs : List Value} (h : List.Forall₂ R es vs) (hvs : ∀ v ∈ vs, v.IsNumeric)
    {e : E} {v : Value} (he : R e v) (hv : v.IsNumeric) :
    R (es.foldl apply e) (vs.foldl (applied op) v) := by
  induction h generalizing e v with
  | nil => exact he
  | cons hab _ ih =>
    rw [List.forall_mem_cons] at hvs
    exact ih hvs.2 (step he hab hv hvs.1) (isNumeric_applied op _ _)

end Value

/-- The value of a column, a number missing from a map of numbers being zero. -/
def Fields.counted (w : Warehouse) (f : Fields) (c : Column) : Value :=
  if c.sub.isSome && w.isNumericRoot c.root && (f c).isNull then .number 0 else f c

namespace SelectExpr

mutual

def value (g : Engine) (w : Warehouse) (f : Fields) : SelectExpr → Value
  | .field key => f.counted w (Column.ofKey key)
  | .literal l => g.literal l
  | .size key => (f (Column.ofKey key)).size
  | .arithmetic op operands => .chained op (values g w f operands)

def values (g : Engine) (w : Warehouse) (f : Fields) : List SelectExpr → List Value
  | [] => []
  | s :: rest => value g w f s :: values g w f rest

end

mutual

/-- The keys of the lists it takes the sizes of. -/
def sizeKeys : SelectExpr → List String
  | .field _ | .literal _ => []
  | .size key => [key]
  | .arithmetic _ operands => sizeKeysOfAll operands

def sizeKeysOfAll : List SelectExpr → List String
  | [] => []
  | s :: rest => sizeKeys s ++ sizeKeysOfAll rest

end

/-- Its columns hold numbers, or lists where it takes their sizes, or nothing. -/
inductive Counts (w : Warehouse) (f : Fields) : SelectExpr → Prop
  | field {key : String} (undated : Sql.isDateColumn (Column.ofKey key) = false)
      (counted : (Column.ofKey key).sub.isSome = true →
        w.isNumericRoot (Column.ofKey key).root = true)
      (numeric : (f (Column.ofKey key)).IsNumeric) : Counts w f (.field key)
  | null : Counts w f (.literal .null)
  | int (n : Int) : Counts w f (.literal (.int n))
  | float (x : Float) : Counts w f (.literal (.float x))
  | size {key : String} (undated : Sql.isDateColumn (Column.ofKey key) = false)
      (listed : (f (Column.ofKey key)).IsListed) : Counts w f (.size key)
  | arithmetic (op : Arithmetic) {operands : List SelectExpr}
      (operand : ∀ s ∈ operands, Counts w f s) : Counts w f (.arithmetic op operands)

/-- What is no arithmetic may be of any type that its column is read as. -/
inductive Fits (w : Warehouse) (f : Fields) : SelectExpr → Prop
  | plain {key : String} (undated : Sql.isDateColumn (Column.ofKey key) = false)
      (whole : (Column.ofKey key).sub = none) : Fits w f (.field key)
  | text {key : String} (undated : Sql.isDateColumn (Column.ofKey key) = false)
      (mapped : w.isNumericRoot (Column.ofKey key).root = false)
      (textual : (f (Column.ofKey key)).IsTextual) : Fits w f (.field key)
  | literal (l : Literal) : Fits w f (.literal l)
  | counts {s : SelectExpr} (counts : Counts w f s) : Fits w f s

/-- The list is a whole column, or is missing from a map of texts. -/
def SizedAlike (w : Warehouse) (f : Fields) (c : Column) : Prop :=
  c.sub = none ∨ w.isNumericRoot c.root = false ∧ f c = .null

section
variable {g : Engine} {w : Warehouse} {f : Fields} {s : SelectExpr} {key : String}

theorem values_eq (ss : List SelectExpr) : values g w f ss = ss.map (value g w f) := by
  induction ss with
  | nil => rfl
  | cons s rest ih => rw [values, ih, List.map_cons]

/-- Operands that are compiled one by one give their values. -/
theorem gives_values {E : Type} {compile : Computed → Compiled E} {R : E → Value → Prop}
    {operands : List SelectExpr} {es : List E}
    (hes : (computedOperands operands).mapM compile = .ok es)
    (h : ∀ s ∈ operands, ∀ e, compile (.ofSelect s) = .ok e → R e (s.value g w f)) :
    List.Forall₂ R es (values g w f operands) := by
  rw [computedOperands_eq] at hes
  rw [values_eq, List.forall₂_map_right_iff]
  have hall := (List.forall₂_and_left operands es).mpr
    ⟨h, List.forall₂_map_left_iff.mp (mapM_ok hes)⟩
  exact hall.flip.imp fun e s hs => hs.1 e hs.2

theorem mem_sizeKeysOfAll {ss : List SelectExpr} :
    key ∈ sizeKeysOfAll ss ↔ ∃ s ∈ ss, key ∈ s.sizeKeys := by
  induction ss with
  | nil => simp [sizeKeysOfAll]
  | cons s rest ih => rw [sizeKeysOfAll, List.mem_append, ih, List.exists_mem_cons_iff]

theorem Counts.isNumeric (h : s.Counts w f) : (s.value g w f).IsNumeric := by
  induction h with
  | field _ _ numeric =>
    rw [value, Fields.counted]
    split
    · exact Value.isNumeric_number 0
    · exact numeric
  | null => exact .inl rfl
  | int | float => exact Value.isNumeric_number _
  | size => exact Value.isNumeric_size _
  | arithmetic op _ ih =>
    rw [value, values_eq]
    exact Value.isNumeric_chained (List.forall_mem_map.mpr ih)

theorem isNumeric_values {ss : List SelectExpr} (h : ∀ s ∈ ss, s.Counts w f) :
    ∀ v ∈ values g w f ss, v.IsNumeric := by
  rw [values_eq]
  exact List.forall_mem_map.mpr fun s hs => (h s hs).isNumeric

theorem Counts.size_listed (h : s.Counts w f) (hkey : key ∈ s.sizeKeys) :
    (SelectExpr.size key).Counts w f := by
  induction h with
  | field | null | int | float => exact absurd hkey List.not_mem_nil
  | size undated listed =>
    obtain rfl := List.mem_singleton.mp hkey
    exact .size undated listed
  | arithmetic op _ ih =>
    obtain ⟨s, hs, hkey⟩ := mem_sizeKeysOfAll.mp hkey
    exact ih s hs hkey

theorem Fits.size_listed (h : s.Fits w f) (hkey : key ∈ s.sizeKeys) :
    (SelectExpr.size key).Counts w f := by
  cases h with
  | plain | text | literal => exact absurd hkey List.not_mem_nil
  | counts h => exact h.size_listed hkey

end
end SelectExpr

end CostQuery

import CostQuery.Column
import CostQuery.Filter.Condition
import CostQuery.Query.Select
import Mathlib.Algebra.Order.Ring.Rat
import Mathlib.Data.String.Basic

/-! Values in cost records, and what the stores answer about them. -/

namespace CostQuery

/-- True, false, or unknown. -/
abbrev Truth := Option Bool

namespace Truth

def not (t : Truth) : Truth := t.map (!·)

def and : Truth → Truth → Truth
  | some false, _ => some false
  | some true, t => t
  | none, some false => some false
  | none, _ => none

def or : Truth → Truth → Truth
  | some true, _ => some true
  | some false, t => t
  | none, some true => some true
  | none, _ => none

def all (ts : List Truth) : Truth := ts.foldr and (some true)

def any (ts : List Truth) : Truth := ts.foldr or (some false)

theorem and_eq_true {s t : Truth} : s.and t = some true ↔ s = some true ∧ t = some true := by
  rcases s with _ | _ | _ <;> rcases t with _ | _ | _ <;> simp [and]

theorem or_eq_true {s t : Truth} : s.or t = some true ↔ s = some true ∨ t = some true := by
  rcases s with _ | _ | _ <;> rcases t with _ | _ | _ <;> simp [or]

theorem or_eq_false {s t : Truth} : s.or t = some false ↔ s = some false ∧ t = some false := by
  rcases s with _ | _ | _ <;> rcases t with _ | _ | _ <;> simp [or]

theorem all_eq_true {ts : List Truth} : all ts = some true ↔ ∀ t ∈ ts, t = some true := by
  induction ts with
  | nil => simp [all]
  | cons t ts ih =>
    simp only [all, List.foldr_cons, List.forall_mem_cons] at ih ⊢
    rw [and_eq_true, ih]

theorem any_eq_true {ts : List Truth} : any ts = some true ↔ ∃ t ∈ ts, t = some true := by
  induction ts with
  | nil => simp [any]
  | cons t ts ih =>
    simp only [any, List.foldr_cons, List.exists_mem_cons_iff] at ih ⊢
    rw [or_eq_true, ih]

theorem any_eq_false {ts : List Truth} : any ts = some false ↔ ∀ t ∈ ts, t = some false := by
  induction ts with
  | nil => simp [any]
  | cons t ts ih =>
    simp only [any, List.foldr_cons, List.forall_mem_cons] at ih ⊢
    rw [or_eq_false, ih]

end Truth

namespace Comparison
variable {α : Type} [LinearOrder α]

def holds (op : Comparison) (a b : α) : Bool :=
  match op with
  | .eq => decide (a = b)
  | .notEq => decide (a ≠ b)
  | .lt => decide (a < b)
  | .lte => decide (a ≤ b)
  | .gt => decide (b < a)
  | .gte => decide (b ≤ a)

end Comparison

/-- Moments and spans of time are counted in microseconds. -/
def TimeUnit.micros : TimeUnit → Int
  | .second => 1000000
  | .minute => 60 * 1000000
  | .hour => 3600 * 1000000
  | .day => 86400 * 1000000
  | .week => 604800 * 1000000

inductive Value where
  | null
  | bool (value : Bool)
  | number (value : Rat)
  | text (value : String)
  | moment (micros : Int)
  | span (micros : Int)
  /-- A list, of which only the length is read. -/
  | list (length : Nat)
  /-- Anything else; nothing looks into it. -/
  | other (id : Nat)
deriving DecidableEq

namespace Value

def isNull (v : Value) : Bool := decide (v = .null)

/-- The truth of a value, unknown if it has none. -/
def truth : Value → Truth
  | .bool b => some b
  | _ => none

def ofTruth : Truth → Value
  | some b => .bool b
  | none => .null

@[simp] theorem isNull_null : isNull .null = true := rfl

@[simp] theorem isNull_text (s : String) : isNull (.text s) = false := rfl

@[simp] theorem isNull_moment (t : Int) : isNull (.moment t) = false := rfl

theorem ofTruth_eq_true {t : Truth} : ofTruth t = .bool true ↔ t = some true := by
  rcases t with _ | _ <;> simp [ofTruth]

theorem truth_eq_true {v : Value} : v.truth = some true ↔ v = .bool true := by
  cases v <;> simp [truth]

/-- Values of one type are compared; between others there is no order. -/
def ordered? (op : Comparison) : Value → Value → Truth
  | .bool a, .bool b => some (op.holds a b)
  | .number a, .number b => some (op.holds a b)
  | .text a, .text b => some (op.holds a b)
  | .moment a, .moment b => some (op.holds a b)
  | _, _ => none

/-- Arithmetic on numbers; nothing is divided by zero. -/
def arithmetic? (op : Arithmetic) (a b : Rat) : Option Rat :=
  match op with
  | .add => some (a + b)
  | .subtract => some (a - b)
  | .multiply => some (a * b)
  | .divide => if b = 0 then none else some (a / b)

end Value

/-- The columns of a cost record; a key inside a map is a column of its own. -/
abbrev Fields := Column → Value

/-- What the stores answer by functions of their own. -/
structure Engine where
  now : Int
  startOfDay : Int → Int
  /-- The moment that a value names, if it names one. -/
  moment? : Value → Option Int
  /-- The regular expression matches somewhere in the text. -/
  regex : (pattern text : String) → Bool
  /-- The same, in either case of letters. -/
  regexAnyCase : (pattern text : String) → Bool
  /-- The pattern of `LIKE` matches the text, in either case of letters. -/
  like : (pattern text : String) → Bool
  float : Float → Rat
  /-- Values of other types turned into texts and decimals. -/
  toText : Value → Value
  toDecimal : Value → Value
  /-- A comparison of values of two types. -/
  mixed : Comparison → Value → Value → Truth

namespace Engine

def literal (g : Engine) : Literal → Value
  | .null => .null
  | .bool b => .bool b
  | .int n => .number n
  | .float x => .number (g.float x)
  | .text s => .text s

@[simp] theorem literal_text (g : Engine) (s : String) : g.literal (.text s) = .text s := rfl

@[simp] theorem literal_int (g : Engine) (n : Int) : g.literal (.int n) = .number n := rfl

theorem literals_text (g : Engine) (ts : List String) :
    (ts.map Literal.text).map g.literal = ts.map Value.text := by
  rw [List.map_map]
  rfl

end Engine
end CostQuery

import CostQuery.Pipeline.Filter
import CostQuery.Proofs.Filter.Meaning
import CostQuery.Proofs.Store.Value

/-! What a pipeline expression gives in one document, and when a test matches the document. -/

namespace CostQuery.Pipeline

/-- The order among types; null comes before everything. -/
def rank : Value → Nat
  | .null => 0
  | .number _ => 1
  | .text _ => 2
  | .other _ => 3
  | .list _ => 4
  | .bool _ => 5
  | .moment _ => 6
  | .span _ => 7

/-- Values of two types are in the order of their types. Nothing is said of lists, nor of values
that nothing looks into. -/
def compared? (op : Comparison) (a b : Value) : Option Bool :=
  if rank a ≠ rank b then some (op.holds (rank a) (rank b))
  else if a = .null then some (op.holds 0 0)
  else Value.ordered? op a b

def isTrue : Value → Bool
  | .bool b => b
  | .null => false
  | .number q => decide (q ≠ 0)
  | _ => true

/-- Arithmetic with a missing number gives none. -/
def computed? (op : Arithmetic) (a b : Value) : Option Value :=
  if a = .null ∨ b = .null then some .null
  else match a, b with
    | .number a, .number b => (Value.arithmetic? op a b).map .number
    | _, _ => none

def moved? (amount : Int) : Value → Option Value
  | .null => some .null
  | .moment t => some (.moment (t + amount))
  | _ => none

def dated? (g : Engine) (v : Value) : Option Value :=
  if v.isNull then some .null else (g.moment? v).map .moment

/-- A text that starts with a dollar sign is read as a path, or as a variable. -/
def written? (g : Engine) (f : Fields) (text : String) : Option Value :=
  match text.toList with
  | '$' :: '$' :: name => if name = ['N', 'O', 'W'] then some (.moment g.now) else none
  | '$' :: key => some (f (Column.ofKey (String.ofList key)))
  | _ => some (.text text)

namespace Expr

/-- None where the store fails; objects are not looked into. -/
def value? (g : Engine) (f : Fields) : Expr → Option Value
  | .path key => some (f (Column.ofKey key))
  | .now => some (.moment g.now)
  | .null => some .null
  | .bool b => some (.bool b)
  | .int n => some (.number n)
  | .text s => written? g f s
  | .emptyList => some (.list 0)
  | .literal l => some (g.literal l)
  | .object _ => none
  | .ifNull value default =>
    (value.value? g f).bind fun v => if v.isNull then default.value? g f else some v
  | .cond test yes no =>
    (test.value? g f).bind fun v => if isTrue v then yes.value? g f else no.value? g f
  | .compare op a b =>
    (a.value? g f).bind fun a => (b.value? g f).bind fun b => (compared? op a b).map .bool
  | .arithmetic op a b =>
    (a.value? g f).bind fun a => (b.value? g f).bind fun b => computed? op a b
  | .size list =>
    (list.value? g f).bind fun
      | .list n => some (.number n)
      | _ => none
  | .toDate value => (value.value? g f).bind (dated? g)
  | .startOfDay date =>
    (date.value? g f).bind fun
      | .null => some .null
      | .moment t => some (.moment (g.startOfDay t))
      | _ => none
  | .dateAdd date unit amount => (date.value? g f).bind (moved? (amount * unit.micros))

end Expr

/-- Orderings and patterns meet values of their own type alone. -/
def FieldTest.meets (g : Engine) (v : Value) : FieldTest → Bool
  | .isNull => v.isNull
  | .notNull => !v.isNull
  | .compare .eq l => decide (v = g.literal l)
  | .compare .notEq l => decide (v ≠ g.literal l)
  | .compare op l => Value.ordered? op v (g.literal l) = some true
  | .oneOf ls => (ls.map g.literal).contains v
  | .noneOf ls => !(ls.map g.literal).contains v
  | .regex pattern => textMeets v (g.regex pattern)
  | .contains pattern => textMeets v (g.regexAnyCase pattern)
  | .lacks pattern => !textMeets v (g.regexAnyCase pattern) && !v.isNull
where
  textMeets (v : Value) (test : String → Bool) : Bool :=
    match v with
    | .text s => test s
    | _ => false

theorem matchesOf_eq (ps : List Predicate) : matchesOf ps = ps.map Match.ofPredicate := by
  induction ps with
  | nil => rfl
  | cons p rest ih => rw [matchesOf, ih, List.map_cons]

namespace Match

mutual

/-- A document is matched by a test that gives something true. -/
def holds (g : Engine) (f : Fields) : Match → Bool
  | .field key test => test.meets g (f (Column.ofKey key))
  | .expr e => (e.value? g f).any isTrue
  | .and parts => holdsAll g f parts
  | .or parts => holdsAny g f parts

def holdsAll (g : Engine) (f : Fields) : List Match → Bool
  | [] => true
  | m :: rest => m.holds g f && holdsAll g f rest

def holdsAny (g : Engine) (f : Fields) : List Match → Bool
  | [] => false
  | m :: rest => m.holds g f || holdsAny g f rest

end

variable {g : Engine} {f : Fields} {p : Predicate}

/-- The document meets the test. -/
def Met (g : Engine) (f : Fields) (t : Predicate) : Prop := (ofPredicate t).holds g f = true

/-- A predicate matches a document exactly as its tests are met. -/
theorem holds_ofPredicate : (ofPredicate p).holds g f = true ↔ p.holds (Met g f) := by
  induction p using Predicate.of_parts with
  | test p hp => rw [Predicate.holds_of_isTest hp, Met]
  | and parts ih =>
    rw [ofPredicate, holds, Predicate.holds_and]
    induction parts with
    | nil => simp [matchesOf, holdsAll]
    | cons p rest ih' =>
      rw [List.forall_mem_cons] at ih
      rw [matchesOf, holdsAll, Bool.and_eq_true, ih.1, ih' ih.2, List.forall_mem_cons]
  | or parts ih =>
    rw [ofPredicate, holds, Predicate.holds_or]
    induction parts with
    | nil => simp [matchesOf, holdsAny]
    | cons p rest ih' =>
      rw [List.forall_mem_cons] at ih
      rw [matchesOf, holdsAny, Bool.or_eq_true, ih.1, ih' ih.2, List.exists_mem_cons_iff]

end Match
end CostQuery.Pipeline

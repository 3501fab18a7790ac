import CostQuery.Decimal.Shortest
import CostQuery.Json.Token

/-! Types of unquoted scalars: null, truth values, whole numbers, floats, and text otherwise. -/

namespace CostQuery.Scalar

def isNull (text : String) : Bool := ["null", "Null", "NULL", "~"].contains text

def truth? (text : String) : Option Bool :=
  if ["true", "True", "TRUE"].contains text then some true
  else if ["false", "False", "FALSE"].contains text then some false
  else none

/-- The digits of a whole number in a base up to sixteen, at least one. -/
def natural? (base : Nat) (digits : List Char) : Option Nat :=
  if digits.isEmpty then none
  else digits.foldlM (fun n c => do
    let d ← Json.hexValue? c
    if d < base then some (n * base + d) else none) 0

def isSign (c : Char) : Bool := c = '+' || c = '-'

def dropPlus : List Char → List Char
  | '+' :: rest => rest
  | cs => cs

def dropSign : List Char → List Char
  | c :: rest => if isSign c then rest else c :: rest
  | [] => []

/-- A zero before further digits: such a scalar is text. -/
def isPaddedDigits (cs : List Char) : Bool :=
  match dropSign cs with
  | '0' :: c :: rest => (c :: rest).all Char.isDigit
  | _ => false

/-- A base marked by `0x`, `0o` or `0b`, and the digits after the mark. -/
def markedBase? : List Char → Option (Nat × List Char)
  | '0' :: 'x' :: rest => some (16, rest)
  | '0' :: 'o' :: rest => some (8, rest)
  | '0' :: 'b' :: rest => some (2, rest)
  | _ => none

def marked? (cs : List Char) : Option Nat := do
  let (base, digits) ← markedBase? cs
  natural? base digits

/-- A whole number that may have a plus sign. -/
def unsigned? (text : String) : Option Nat :=
  let cs := dropPlus text.toList
  (marked? cs).orElse fun _ =>
    if isPaddedDigits text.toList then none else natural? 10 cs

/-- A whole number with either sign. -/
def integer? (text : String) : Option Int :=
  match unsigned? text, text.toList with
  | some n, _ => some n
  | none, '-' :: cs =>
    ((marked? cs).orElse fun _ =>
      if isPaddedDigits ('-' :: cs) then none else natural? 10 cs).map fun n => -(n : Int)
  | none, _ => none

/-- The nearest float to `mantissa * 10 ^ exponent`, unless that is out of range. -/
def nearestFloat? (mantissa : Nat) (exponent : Int) : Option Float :=
  let lead := Decimal.digitCount mantissa + exponent
  if mantissa = 0 ∨ lead < -400 then some 0
  else if 400 < lead then none
  else
    let x := Float.ofScientific mantissa (decide (exponent < 0)) exponent.natAbs
    if x.isFinite then some x else none

/-- Digits with at most one point among or beside them. -/
def pointed? (cs : List Char) : Option (List Char × List Char × List Char) :=
  let (whole, rest) := Json.spanDigits cs
  let (fraction, rest) := match rest with
    | '.' :: rest => Json.spanDigits rest
    | rest => ([], rest)
  if whole.isEmpty && fraction.isEmpty then none else some (whole, fraction, rest)

/-- A decimal number with an optional point, exponent and sign. -/
def float? (text : String) : Option Float := do
  let (negative, cs) := match text.toList with
    | '-' :: cs => (true, cs)
    | cs => (false, dropPlus cs)
  let (whole, fraction, rest) ← pointed? cs
  let (exponent, rest) ← Json.exponent? rest
  if !rest.isEmpty then none
  else
    let x ← nearestFloat? (Json.decimalValue (whole ++ fraction))
      (exponent.getD 0 - fraction.length)
    return if negative then -x else x

def isUnbounded (text : String) : Bool :=
  [".inf", ".Inf", ".INF", "+.inf", "+.Inf", "+.INF", "-.inf", "-.Inf", "-.INF",
    ".nan", ".NaN", ".NAN"].contains text

/-- The value of a scalar where any type is wanted; none for whole numbers of 65 to 128 bits.
Infinities and undefined numbers have no exchange form and become null. -/
def resolve? (text : String) : Option Json :=
  if text.isEmpty || isNull text then some .null
  else match truth? text with
    | some b => some (.bool b)
    | none =>
      let asFloat : Json :=
        if isUnbounded text then .null
        else if isPaddedDigits text.toList then .str text
        else match float? text with
          | some x => .num (.float x)
          | none => .str text
      match integer? text with
      | some n =>
        if isWord n then some (.int n)
        else if -Nat.pow 2 127 ≤ n ∧ n < Nat.pow 2 128 then none
        else some asFloat
      | none => some asFloat

end CostQuery.Scalar

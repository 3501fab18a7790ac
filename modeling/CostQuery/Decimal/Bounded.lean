import CostQuery.Decimal.Binary

/-! Decimals of bounded size: at most 96 bits of units, and at most 28 places after the point. -/

namespace CostQuery.Decimal

def maxUnits : Nat := Nat.pow 2 96 - 1

def maxPlaces : Nat := 28

/-- The number `units * 10 ^ -places`, or its negative. -/
structure Bounded where
  negative : Bool
  units : Nat
  places : Nat
  units_le : units ≤ maxUnits
  places_le : places ≤ maxPlaces
deriving DecidableEq

namespace Bounded

def ofParts? (negative : Bool) (units places : Nat) : Option Bounded :=
  if h : units ≤ maxUnits ∧ places ≤ maxPlaces then some ⟨negative, units, places, h.1, h.2⟩
  else none

def digitValue (c : Char) : Nat := c.toNat - '0'.toNat

/-- Whole digits and fraction digits. -/
structure Digits where
  whole : List Char
  fraction : List Char

/-- Digits around one point or none, with a digit somewhere. Underscores are passed over once a
digit has come. -/
def Digits.read? (seen point : Bool) : List Char → Option Digits
  | [] => if seen then some ⟨[], []⟩ else none
  | c :: rest =>
    if c.isDigit then
      (read? true point rest).map fun d =>
        if point then { d with fraction := c :: d.fraction } else { d with whole := c :: d.whole }
    else if c = '_' && seen then read? seen point rest
    else if c = '.' && !point then read? seen true rest
    else none

def wholeUnits (digits : List Char) : Nat := digits.foldl (fun n c => n * 10 + digitValue c) 0

/-- One unit up. At the greatest count of units the last place is given up, if there is one. -/
def roundUp? (units places : Nat) : Option Bounded :=
  if units + 1 ≤ maxUnits then ofParts? false (units + 1) places
  else if places = 0 then none
  else ofParts? false ((units + 5) / 10) (places - 1)

/-- Append the fraction digits that fit; the first that does not fit rounds, half upwards. -/
def append? (units places : Nat) : List Char → Option Bounded
  | [] => ofParts? false units places
  | c :: rest =>
    let next := units * 10 + digitValue c
    if places < maxPlaces ∧ next ≤ maxUnits then append? next (places + 1) rest
    else if 5 ≤ digitValue c then roundUp? units places
    else ofParts? false units places

def signed : List Char → Bool × List Char
  | '-' :: rest => (true, rest)
  | '+' :: rest => (false, rest)
  | cs => (false, cs)

/-- A numeral without an exponent. Zero is written with either sign and has none. -/
def ofPlain? (cs : List Char) : Option Bounded := do
  let (negative, cs) := signed cs
  let digits ← Digits.read? false false cs
  let units := wholeUnits digits.whole
  if maxUnits < units then none
  else
    let d ← append? units 0 digits.fraction
    return { d with negative := negative && decide (d.units ≠ 0) }

/-- Drop the last digits of a count of units; the first that is dropped rounds, half upwards. -/
def dropDigits (units : Nat) : Nat → Nat
  | 0 => units
  | n + 1 => (units + 5 * Nat.pow 10 n) / Nat.pow 10 (n + 1)

/-- Move the point to the left. Digits that come to stand beyond the last place are dropped. -/
def shiftLeft? (d : Bounded) (n : Nat) : Option Bounded :=
  ofParts? d.negative (dropDigits d.units (d.places + n - maxPlaces)) (min (d.places + n) maxPlaces)

/-- Move the point to the right. -/
def shiftRight? (d : Bounded) (n : Nat) : Option Bounded :=
  if n ≤ d.places then ofParts? d.negative d.units (d.places - n)
  else ofParts? d.negative (d.units * Nat.pow 10 (n - d.places)) 0

/-- An exponent of 28 at most, with a plus sign or without. -/
def exponent? (cs : List Char) : Option Nat :=
  let digits := match cs with
    | '+' :: rest => rest
    | cs => cs
  if digits.isEmpty || !digits.all Char.isDigit then none
  else (some (wholeUnits digits)).filter fun n => decide (n ≤ maxPlaces)

def isExponentMark (c : Char) : Bool := c = 'e' || c = 'E'

/-- A numeral with an exponent. -/
def ofScientific? (cs : List Char) : Option Bounded :=
  match cs.dropWhile (!isExponentMark ·) with
  | [] => none
  | _ :: exponent => do
    let d ← ofPlain? (cs.takeWhile (!isExponentMark ·))
    match exponent with
    | '-' :: rest => d.shiftLeft? (← exponent? rest)
    | rest => d.shiftRight? (← exponent? rest)

def ofText? (text : String) : Option Bounded :=
  (ofPlain? text.toList).or (ofScientific? text.toList)

/-- A power by squares: `x` to the `n`, times `product`. -/
def powFrom (product x : Float) (n : Nat) : Float :=
  if n = 0 then product
  else powFrom (if n % 2 = 1 then product * x else product) (x * x) (n / 2)
termination_by n

/-- The float of the magnitude: the whole part, and a fraction rounded to the places. -/
def magnitude (d : Bounded) : Float :=
  if d.places = 0 then Float.ofNat d.units
  else
    let whole := Float.ofNat (d.units / Nat.pow 10 d.places)
    let fraction := Float.ofNat (d.units % Nat.pow 10 d.places) / Float.ofNat (Nat.pow 10 d.places)
    if d.units % Nat.pow 10 d.places = 0 then whole
    else
      let scale := powFrom 1 10 d.places
      Float.ofNat (Binary.ofFloat ((whole + fraction) * scale)).nearest / scale

/-- The sign of a zero is kept where it has places. -/
def toFloat (d : Bounded) : Float :=
  if d.negative && decide (d.units ≠ 0 ∨ d.places ≠ 0) then -d.magnitude else d.magnitude

end Bounded
end CostQuery.Decimal

import CostQuery.Decimal.Binary

/-! Shortest decimals: the fewest digits that single out one float among all floats. -/

namespace CostQuery.Decimal

/-- The decimal `digits * 10 ^ exponent`. -/
structure Scientific where
  digits : Nat
  exponent : Int

/-- Which of two equally near neighbours is taken. -/
inductive Tie where
  | even
  | upper

/-- The numbers that round to one magnitude, `lower` to `upper` over `2 ^ shift`. -/
structure Span where
  lower : Nat
  value : Nat
  upper : Nat
  shift : Nat
  closed : Bool

/-- The ends lie halfway to the neighbours and belong to the even mantissa. -/
def Span.ofBinary (x : Binary) : Span :=
  let scale := Nat.pow 2 (x.exponent - 2).toNat
  let below := if x.narrowBelow then 1 else 2
  { lower := (4 * x.mantissa - below) * scale
    value := 4 * x.mantissa * scale
    upper := (4 * x.mantissa + 2) * scale
    shift := (2 - x.exponent).toNat
    closed := x.mantissa % 2 == 0 }

/-- One unit of the last digit, in the measure in which numbers are multiplied by `fine e`. -/
def coarse (e : Int) : Nat := Nat.pow 10 e.toNat

def fine (e : Int) : Nat := Nat.pow 10 (-e).toNat

/-- `digits * 10 ^ e` rounds to the magnitude. -/
def Span.contains (s : Span) (digits : Nat) (e : Int) : Bool :=
  let d := digits * coarse e * Nat.pow 2 s.shift
  if s.closed then s.lower * fine e ≤ d && d ≤ s.upper * fine e
  else s.lower * fine e < d && d < s.upper * fine e

/-- The multiple of `10 ^ e` at or below the magnitude. -/
def Span.floorAt (s : Span) (e : Int) : Nat := s.value * fine e / (coarse e * Nat.pow 2 s.shift)

/-- The nearer neighbour, of two that round to the magnitude. -/
def Span.nearer (s : Span) (tie : Tie) (low : Nat) (e : Int) : Nat :=
  match compare (2 * s.value * fine e) ((2 * low + 1) * coarse e * Nat.pow 2 s.shift), tie with
  | .lt, _ => low
  | .gt, _ => low + 1
  | .eq, .upper => low + 1
  | .eq, .even => if low % 2 = 0 then low else low + 1

/-- A multiple of `10 ^ e` that rounds to the magnitude. -/
def Span.pickAt (s : Span) (tie : Tie) (e : Int) : Option Nat :=
  let low := s.floorAt e
  match s.contains low e, s.contains (low + 1) e with
  | true, true => some (s.nearer tie low e)
  | true, false => some low
  | false, true => some (low + 1)
  | false, false => none

def digitCount (n : Nat) : Nat := if n = 0 then 0 else (Nat.toDigits 10 n).length

/-- The least `k` with the magnitude below `10 ^ k`, for a magnitude above zero. -/
def Span.scale (s : Span) : Int :=
  if Nat.pow 2 s.shift ≤ s.value then digitCount (s.value / Nat.pow 2 s.shift)
  else 1 - (digitCount ((Nat.pow 2 s.shift - 1) / s.value) : Int)

/-- Trailing zeros move into the exponent. -/
def Scientific.strip : Nat → Scientific → Scientific
  | 0, d => d
  | fuel + 1, d =>
    if d.digits ≠ 0 ∧ d.digits % 10 = 0 then strip fuel ⟨d.digits / 10, d.exponent + 1⟩ else d

/-- The first grid that has a hit, from one digit to seventeen; the exact value if none has. -/
def Span.shortest (s : Span) (tie : Tie) : Scientific :=
  let found := (List.range 17).findSome? fun n =>
    let e := s.scale - (n + 1 : Nat)
    (s.pickAt tie e).map fun d => Scientific.mk d e
  let exact : Scientific := ⟨s.value * Nat.pow 5 s.shift, -(s.shift : Int)⟩
  let d := found.getD exact
  d.strip (digitCount d.digits)

def shortest (x : Binary) (tie : Tie) : Scientific := (Span.ofBinary x).shortest tie

end CostQuery.Decimal

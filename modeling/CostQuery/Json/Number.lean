import CostQuery.Document.Node

/-! Numbers as read from text. -/

namespace CostQuery.Number

def digitValue (c : Char) : Nat := c.toNat - '0'.toNat

/-- A numeral: whole digits, fraction digits, and an exponent, if written. -/
structure Numeral where
  negative : Bool
  whole : List Char
  fraction : Option (List Char)
  exponent : Option Int

/-- Append digits while the result fits 64 bits; what is left is returned too. -/
def appendFitting (n : Nat) : List Char → Nat × List Char
  | [] => (n, [])
  | c :: rest =>
    let next := n * 10 + digitValue c
    if next < Nat.pow 2 64 then appendFitting next rest else (n, c :: rest)

def powerOfTen (n : Nat) : Float := Float.ofScientific 1 false n

/-- `x * 10 ^ e` by one power of ten, after steps of `10 ^ 308` for a smaller one;
nothing if it is out of range. -/
def scale (x : Float) (e : Int) : Option Float :=
  if e.natAbs ≤ 308 then
    if 0 ≤ e then
      let y := x * powerOfTen e.natAbs
      if y.isInf then none else some y
    else some (x / powerOfTen e.natAbs)
  else if x == 0 then some x
  else if 0 ≤ e then none
  else scale (x / powerOfTen 308) (e + 308)
termination_by (-e).toNat
decreasing_by omega

/-- A float is the leading digits that fit 64 bits, scaled; digits after them only move the scale. -/
def Numeral.toFloat? (n : Numeral) : Option Float :=
  let (head, dropped) := appendFitting 0 n.whole
  let fraction := n.fraction.getD []
  let (all, left) := appendFitting head fraction
  let used : Int := fraction.length - left.length
  let e := dropped.length - used + n.exponent.getD 0
  (scale (Float.ofNat all) e).map fun x => if n.negative then -x else x

/-- A numeral without fraction and exponent that fits 64 bits is whole, save for a negative zero. -/
def Numeral.toNumber? (n : Numeral) : Option Number :=
  let (value, dropped) := appendFitting 0 n.whole
  let signed : Int := if n.negative then -value else value
  if n.fraction.isNone && n.exponent.isNone && dropped.isEmpty && isWord signed &&
      !(n.negative && value == 0) then some (.int signed)
  else n.toFloat?.map .float

end CostQuery.Number

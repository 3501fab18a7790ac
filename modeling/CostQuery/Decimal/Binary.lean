/-! Binary floating-point magnitudes as exact numbers. -/

namespace CostQuery.Decimal

/-- The finite magnitude `mantissa * 2 ^ exponent`. -/
structure Binary where
  mantissa : Nat
  exponent : Int
  /-- The gap to the value below is half the gap to the value above. -/
  narrowBelow : Bool

-- Powers are `Nat.pow` here: what `^` stands for depends on the imports.

/-- The magnitude of a finite float; its sign is left out. -/
def Binary.ofFloat (x : Float) : Binary :=
  let bits : Nat := x.toBits.toNat
  let fraction : Nat := bits % Nat.pow 2 52
  let biased : Nat := bits / Nat.pow 2 52 % Nat.pow 2 11
  if biased = 0 then ⟨fraction, -1074, false⟩
  else ⟨Nat.pow 2 52 + fraction, (biased : Int) - 1075, decide (fraction = 0 ∧ 1 < biased)⟩

/-- The integer part. -/
def Binary.floor (x : Binary) : Nat :=
  x.mantissa * Nat.pow 2 x.exponent.toNat / Nat.pow 2 (-x.exponent).toNat

/-- The nearest whole number; of two the one above. -/
def Binary.nearest (x : Binary) : Nat :=
  (2 * x.mantissa * Nat.pow 2 x.exponent.toNat + Nat.pow 2 (-x.exponent).toNat) /
    (2 * Nat.pow 2 (-x.exponent).toNat)

/-- The sign bit, which zero has too. -/
def isNegative (x : Float) : Bool := decide (Nat.pow 2 63 ≤ x.toBits.toNat)

end CostQuery.Decimal

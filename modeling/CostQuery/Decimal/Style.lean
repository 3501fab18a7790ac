import CostQuery.Decimal.Shortest

/-! Written forms of floats. -/

namespace CostQuery.Decimal

/-- The decisions of a written form. -/
structure Style where
  /-- Exponents of the leading digit that are written without an exponent part. -/
  positional : Int → Bool
  /-- Whole values end in `.0`. -/
  pointZero : Bool
  tie : Tie

def zeros (n : Nat) : List Char := List.replicate n '0'

/-- Digits around the point, for the leading digit at `10 ^ lead`. -/
def positionalChars (digits : List Char) (lead : Int) (pointZero : Bool) : List Char :=
  if lead < 0 then '0' :: '.' :: (zeros (-lead - 1).toNat ++ digits)
  else
    let whole := lead.toNat + 1
    let rest := digits.drop whole
    digits.take whole ++ zeros (whole - digits.length) ++
      (if rest.isEmpty then (if pointZero then ['.', '0'] else []) else '.' :: rest)

/-- One digit, a point if more follow, and a signed exponent. -/
def exponentChars (digits : List Char) (lead : Int) : List Char :=
  digits.take 1 ++ (if digits.length ≤ 1 then [] else '.' :: digits.drop 1) ++
    'e' :: (if lead < 0 then '-' else '+') :: Nat.toDigits 10 lead.natAbs

def Style.chars (style : Style) (x : Float) : List Char :=
  let sign := if isNegative x then ['-'] else []
  let magnitude := Binary.ofFloat x
  sign ++
    if magnitude.mantissa = 0 then '0' :: (if style.pointZero then ['.', '0'] else [])
    else
      let d := shortest magnitude style.tie
      let digits := Nat.toDigits 10 d.digits
      let lead := d.exponent + digits.length - 1
      if style.positional lead then positionalChars digits lead style.pointZero
      else exponentChars digits lead

/-- Positional throughout; whole values have no point. -/
def plain : Style where
  positional _ := true
  pointZero := false
  tie := .upper

/-- Positional from `10 ^ -5` to below `10 ^ 16`; whole values end in `.0`. -/
def exchange : Style where
  positional lead := decide (-5 ≤ lead ∧ lead ≤ 15)
  pointZero := true
  tie := .even

end CostQuery.Decimal

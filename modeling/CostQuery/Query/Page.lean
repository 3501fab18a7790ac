/-! Pages of a result. -/

namespace CostQuery

/-- Sums and products of counts stop at the greatest count of 64 bits. -/
def maxCount : Nat := Nat.pow 2 64 - 1

def addCounts (a b : Nat) : Nat := min (a + b) maxCount

def mulCounts (a b : Nat) : Nat := min (a * b) maxCount

/-- A page by its number, counted from one, and its size. -/
structure Page where
  start : Nat
  limit : Nat

/-- Rows before the page. -/
def Page.offset (p : Page) : Nat := mulCounts (p.start - 1) p.limit

end CostQuery

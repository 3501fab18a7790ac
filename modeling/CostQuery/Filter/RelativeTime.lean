import CostQuery.Json.Token

/-! Times relative to now, such as `now/d-3d`. -/

namespace CostQuery

inductive TimeUnit where
  | second
  | minute
  | hour
  | day
  | week
deriving DecidableEq

namespace TimeUnit

def name : TimeUnit → String
  | .second => "second"
  | .minute => "minute"
  | .hour => "hour"
  | .day => "day"
  | .week => "week"

def letter : TimeUnit → Char
  | .second => 's'
  | .minute => 'm'
  | .hour => 'h'
  | .day => 'd'
  | .week => 'w'

def all : List TimeUnit := [.second, .minute, .hour, .day, .week]

def ofLetter? (c : Char) : Option TimeUnit := all.find? (·.letter = c)

def ofName? (name : String) : Option TimeUnit := all.find? (·.name = name)

end TimeUnit

structure RelativeTime where
  /-- Count from the start of the day. -/
  dayStart : Bool
  /-- A signed amount of one unit. -/
  offset : Option (Int × TimeUnit)
deriving DecidableEq

namespace RelativeTime

/-- An anchor and the text after it; without a written anchor it is now. -/
def anchor : List Char → Bool × List Char
  | 'n' :: 'o' :: 'w' :: '/' :: 'd' :: rest => (true, rest)
  | 'n' :: 'o' :: 'w' :: rest => (false, rest)
  | cs => (false, cs)

/-- A sign, digits for an amount below `2 ^ 63`, and one letter for the unit. -/
def offset? (sign : Char) (cs : List Char) : Option (Int × TimeUnit) := do
  let (digits, rest) := Json.spanDigits cs
  let amount := Json.decimalValue digits
  if digits.isEmpty || decide (Nat.pow 2 63 ≤ amount) then none
  else match rest with
    | [letter] => do
      let unit ← TimeUnit.ofLetter? letter
      if sign = '-' then some (-(amount : Int), unit)
      else if sign = '+' then some ((amount : Int), unit)
      else none
    | _ => none

/-- An optional anchor and an optional offset, not both left out. -/
def ofText? (text : String) : Option RelativeTime :=
  if text.isEmpty then none
  else
    let (dayStart, rest) := anchor text.toList
    match rest with
    | [] => some ⟨dayStart, none⟩
    | sign :: rest => (offset? sign rest).map fun offset => ⟨dayStart, some offset⟩

end RelativeTime
end CostQuery

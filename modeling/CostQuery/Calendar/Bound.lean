import CostQuery.Calendar.Date
import CostQuery.Json.Token
import CostQuery.Text.Blank

/-! Ends of a date window as written: a year, a month, or a day. -/

namespace CostQuery

namespace DateText

/-- A number of at least one digit and at most `limit`. -/
def number? (limit : Nat) (cs : List Char) : Option (Nat × List Char) :=
  let digits := (cs.take limit).takeWhile Char.isDigit
  if digits.isEmpty then none else some (Json.decimalValue digits, cs.drop digits.length)

/-- Four digits at most, or a sign and any number of digits; blanks may precede. -/
def year? (cs : List Char) : Option (Int × List Char) :=
  match Text.dropBlanks cs with
  | '-' :: rest => (number? rest.length rest).map fun (n, rest) => (-(n : Int), rest)
  | '+' :: rest => (number? rest.length rest).map fun (n, rest) => ((n : Int), rest)
  | cs => (number? 4 cs).map fun (n, rest) => ((n : Int), rest)

/-- Two digits at most; blanks may precede. -/
def part? (cs : List Char) : Option (Nat × List Char) := number? 2 (Text.dropBlanks cs)

def dash? : List Char → Option (List Char)
  | '-' :: rest => some rest
  | _ => none

/-- A whole date: a year, a month and a day with dashes between them, and nothing after. -/
def date? (cs : List Char) : Option Date := do
  let (year, cs) ← year? cs
  let (month, cs) ← part? (← dash? cs)
  let (day, cs) ← part? (← dash? cs)
  if cs.isEmpty then Date.ofParts? year month day else none

/-- A year of digits, with or without a sign. -/
def plainYear? (cs : List Char) : Option Int :=
  let (negative, digits) := match cs with
    | '-' :: rest => (true, rest)
    | '+' :: rest => (false, rest)
    | cs => (false, cs)
  let value : Int := Json.decimalValue digits
  if digits.isEmpty || !digits.all Char.isDigit then none
  else some (if negative then -value else value)

end DateText

/-- The first day that a bound covers, and how much of a date the bound gives. -/
structure DateBound where
  first : Date
  precision : Precision

namespace DateBound

/-- The length in bytes tells what is given. -/
def ofText? (text : String) : Option DateBound :=
  match text.utf8ByteSize with
  | 4 => do
    let year ← DateText.plainYear? text.toList
    return ⟨← Date.ofParts? year 1 1, .year⟩
  | 7 => (DateText.date? (text.toList ++ ['-', '0', '1'])).map (⟨·, .month⟩)
  | 10 => (DateText.date? text.toList).map (⟨·, .day⟩)
  | _ => none

/-- The last day that a bound covers. -/
def last (b : DateBound) : Date :=
  match b.precision with
  | .day => b.first
  | .month => b.first.lastOfMonth
  | .year => b.first.lastOfYear

end DateBound
end CostQuery

import CostQuery.Json.Basic
import CostQuery.Decimal.Style

/-! The compact text of exchange values. -/

namespace CostQuery

def Number.chars : Number → List Char
  | .int n => (toString n).toList
  | .float x => Decimal.exchange.chars x

namespace Json

def hexDigit (n : Nat) : Char := Nat.digitChar (n % 16)

/-- Quotes, backslashes and control characters are escaped; all else stands for itself. -/
def escapeChar (c : Char) : List Char :=
  if c = '"' then ['\\', '"']
  else if c = '\\' then ['\\', '\\']
  else if c = '\n' then ['\\', 'n']
  else if c = '\r' then ['\\', 'r']
  else if c = '\t' then ['\\', 't']
  else if c = '\x08' then ['\\', 'b']
  else if c = '\x0c' then ['\\', 'f']
  else if c.toNat < 0x20 then ['\\', 'u', '0', '0', hexDigit (c.toNat / 16), hexDigit c.toNat]
  else [c]

def quoteChars (s : List Char) : List Char := '"' :: (s.flatMap escapeChar ++ ['"'])

/-- Pieces set apart by commas. -/
def commaSeparated : List (List Char) → List Char
  | [] => []
  | [a] => a
  | a :: rest => a ++ ',' :: commaSeparated rest

mutual

def chars : Json → List Char
  | .null => ['n', 'u', 'l', 'l']
  | .bool true => ['t', 'r', 'u', 'e']
  | .bool false => ['f', 'a', 'l', 's', 'e']
  | .num n => n.chars
  | .str s => quoteChars s.toList
  | .arr items => '[' :: (commaSeparated (itemChars items) ++ [']'])
  | .obj members => '{' :: (commaSeparated (memberChars members) ++ ['}'])

def itemChars : List Json → List (List Char)
  | [] => []
  | v :: rest => v.chars :: itemChars rest

def memberChars : List (String × Json) → List (List Char)
  | [] => []
  | (k, v) :: rest => (quoteChars k.toList ++ ':' :: v.chars) :: memberChars rest

end

def text (v : Json) : String := String.ofList v.chars

end Json
end CostQuery

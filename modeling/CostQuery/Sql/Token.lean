import CostQuery.Sql.Name
import CostQuery.Sql.Quote
import CostQuery.Filter.Literal

/-! Tokens of SQL text. Whatever comes from a request is a name, a quoted text or a number. -/

namespace CostQuery.Sql

inductive Token where
  /-- Fixed words and signs. -/
  | plain (text : String)
  | name (name : Name)
  | quoted (text : String)
  | int (value : Int)
  | float (value : Float)

namespace Token

def chars : Token → List Char
  | .plain text => text.toList
  | .name n => '\u0060' :: (n.text.toList ++ ['\u0060'])
  | .quoted text => quoteChars text.toList
  | .int n => (toString n).toList
  | .float x => Decimal.plain.chars x

def text (tokens : List Token) : String := String.ofList (tokens.flatMap chars)

/-- Pieces set apart by a separator. -/
def separated (separator : String) : List (List Token) → List Token
  | [] => []
  | [a] => a
  | a :: rest => a ++ .plain separator :: separated separator rest

def ofLiteral : Literal → Token
  | .null => .plain "NULL"
  | .bool true => .plain "TRUE"
  | .bool false => .plain "FALSE"
  | .int n => .int n
  | .float x => .float x
  | .text s => .quoted s

end Token
end CostQuery.Sql

/-! String literals of SQL text. -/

namespace CostQuery.Sql

/-- Quotes and backslashes are doubled. -/
def quoteChar (c : Char) : List Char :=
  if c = '\'' then ['\'', '\'']
  else if c = '\\' then ['\\', '\\']
  else [c]

def quoteChars (cs : List Char) : List Char := '\'' :: (cs.flatMap quoteChar ++ ['\''])

def quote (text : String) : String := String.ofList (quoteChars text.toList)

end CostQuery.Sql

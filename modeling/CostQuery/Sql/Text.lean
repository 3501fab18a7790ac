import CostQuery.Sql.Expr
import CostQuery.Sql.Token

/-! The text of SQL statements. -/

namespace CostQuery.Sql

open Token (separated)

def comparisonSign : Comparison → String
  | .eq => " = "
  | .notEq => " != "
  | .lt => " < "
  | .lte => " <= "
  | .gt => " > "
  | .gte => " >= "

def arithmeticSign : Arithmetic → String
  | .add => " + "
  | .subtract => " - "
  | .multiply => " * "
  | .divide => " / "

def Function.opening : Function → String
  | .substring => "SUBSTRING("
  | .coalesce => "COALESCE("
  | .nullif => "NULLIF("
  | .size => "SIZE("
  | .dateFormat => "DATE_FORMAT("
  | .addMonths => "ADD_MONTHS("
  | .dateTrunc => "DATE_TRUNC("
  | .sum => "SUM("
  | .avg => "AVG("
  | .max => "MAX("
  | .min => "MIN("
  | .count => "COUNT("
  | .arrayAgg => "ARRAY_AGG("
  | .collectSet => "COLLECT_SET("

def unitWord : TimeUnit → String
  | .second => " SECOND"
  | .minute => " MINUTE"
  | .hour => " HOUR"
  | .day => " DAY"
  | .week => " WEEK"

def ColumnType.tokens : ColumnType → List Token
  | .decimal precision scale =>
    [.plain "DECIMAL(", .int precision, .plain ", ", .int scale, .plain ")"]
  | .string => [.plain "STRING"]
  | .timestamp => [.plain "TIMESTAMP"]

def names (ns : List Name) : List Token := separated ", " (ns.map fun n => [.name n])

/-- Parts joined by a word; one part stands alone, and none leave the word's neutral value. -/
def joined (word neutral : String) : List (List Token) → List Token
  | [] => [.plain neutral]
  | [part] => part
  | parts => .plain "(" :: (separated word parts ++ [.plain ")"])

mutual

def Expr.tokens : Expr → List Token
  | .column n => [.name n]
  | .literal l => [.ofLiteral l]
  | .star => [.plain "*"]
  | .now => [.plain "CURRENT_TIMESTAMP()"]
  | .today => [.plain "CURRENT_DATE()"]
  | .never => [.plain "1=0"]
  | .subscript base key => base.tokens ++ [.plain "[", .quoted key, .plain "]"]
  | .call f args => .plain f.opening :: (separated ", " (allTokens args) ++ [.plain ")"])
  | .cast value type =>
    .plain "CAST(" :: (value.tokens ++ .plain " AS " :: (type.tokens ++ [.plain ")"]))
  | .compare op left right => left.tokens ++ .plain (comparisonSign op) :: right.tokens
  | .arithmetic op left right =>
    .plain "(" :: (left.tokens ++ .plain (arithmeticSign op) :: (right.tokens ++ [.plain ")"]))
  | .isNull value negated => value.tokens ++ [.plain (if negated then " IS NOT NULL" else " IS NULL")]
  | .oneOf value items negated =>
    value.tokens ++ .plain (if negated then " NOT IN (" else " IN (") ::
      (separated ", " (items.map fun l => [.ofLiteral l]) ++ [.plain ")"])
  | .ilike value pattern negated =>
    value.tokens ++ [.plain (if negated then " NOT ILIKE " else " ILIKE "), .quoted pattern]
  | .rlike value pattern => value.tokens ++ [.plain " RLIKE ", .quoted pattern]
  | .and parts => joined " AND " "TRUE" (allTokens parts)
  | .or parts => joined " OR " "FALSE" (allTokens parts)
  | .ifThenElse test yes no =>
    .plain "CASE WHEN " :: (test.tokens ++ .plain " THEN " ::
      (yes.tokens ++ .plain " ELSE " :: (no.tokens ++ [.plain " END"])))
  | .over value [] => value.tokens ++ [.plain " OVER ()"]
  | .over value partition =>
    value.tokens ++ .plain " OVER (PARTITION BY " :: (names partition ++ [.plain ")"])
  | .interval amount unit => [.plain "INTERVAL ", .int amount, .plain (unitWord unit)]
  | .struct slots => .plain "NAMED_STRUCT(" :: (separated ", " (slotTokens slots) ++ [.plain ")"])

def allTokens : List Expr → List (List Token)
  | [] => []
  | e :: rest => e.tokens :: allTokens rest

/-- Each slot's name and its value. -/
def slotTokens : List (String × Expr) → List (List Token)
  | [] => []
  | (name, e) :: rest => (.quoted name :: .plain ", " :: e.tokens) :: slotTokens rest

end

def Item.tokens (i : Item) : List Token :=
  match i.name with
  | some n => i.expr.tokens ++ [.plain " AS ", .name n]
  | none => i.expr.tokens

def Source.tokens : Source → List Token
  | .table parts => separated "." (parts.map fun n => [.name n])
  | .subquery n => [.name n]

def explodeTokens (list : Expr) : List Token :=
  .plain "LATERAL VIEW OUTER EXPLODE(" ::
    (list.tokens ++ [.plain ") ", .name unwindName, .plain " AS ", .name unwoundName])

def Grouping.lines : Grouping → List (List Token)
  | .none => []
  | .all => [[.plain "GROUP BY ALL"]]
  | .keys [] => []
  | .keys ns => [.plain "GROUP BY " :: names ns]

def OrderItem.tokens (o : OrderItem) : List Token :=
  o.expr.tokens ++ [.plain (if o.desc then " DESC" else " ASC")]

def orderLines : List OrderItem → List (List Token)
  | [] => []
  | order => [.plain "ORDER BY " :: separated ", " (order.map OrderItem.tokens)]

/-- One clause a line. -/
def Select.lines (s : Select) : List (List Token) :=
  [.plain (if s.distinct then "SELECT DISTINCT " else "SELECT ") ::
      separated ", " (s.items.map Item.tokens),
    .plain "FROM " :: s.source.tokens] ++
    (s.explode.map explodeTokens).toList ++
    (s.filter.map fun e => .plain "WHERE " :: e.tokens).toList ++
    s.grouping.lines ++
    orderLines s.order ++
    (s.limit.map fun n => [.plain "LIMIT ", .int n]).toList ++
    (s.offset.map fun n => [.plain "OFFSET ", .int n]).toList

def subqueryTokens (q : Name × Select) : List Token :=
  .name q.1 :: .plain " AS (\n" ::
    (separated "\n" (q.2.lines.map fun line => .plain "  " :: line) ++ [.plain "\n)"])

def Statement.tokens (s : Statement) : List Token :=
  let body := separated "\n" s.body.lines
  if s.subqueries.isEmpty then body
  else .plain "WITH " :: (separated ", " (s.subqueries.map subqueryTokens) ++ .plain "\n" :: body)

def Statement.text (s : Statement) : String := Token.text s.tokens

end CostQuery.Sql

import CostQuery.Proofs.Decimal.Written
import CostQuery.Proofs.Filter.Compared
import CostQuery.Proofs.Sql.Conditions
import CostQuery.Proofs.Sql.Quoting

/-! Values in the text of statements. The text is read back token by token, and of a literal that is
no float the value is read that was written. -/

namespace CostQuery.Sql

/-- The number whose digits they are, without zeros before them. -/
def wholeOf? (cs : List Char) : Option Nat :=
  if Nat.toDigits 10 (Decimal.digitsValue cs) = cs then some (Decimal.digitsValue cs) else none

theorem wholeOf_toDigits (n : Nat) : wholeOf? (Nat.toDigits 10 n) = some n := by
  rw [wholeOf?, Decimal.digitsValue_toDigits, if_pos rfl]

/-- The value that lexemes stand for: a text in quotes, a word for a truth value, or a whole number
digit for digit. -/
def denoted? : List Lexeme → Option Json
  | [.quoted cs] => some (.str (String.ofList cs))
  | [.word cs] =>
    if cs = "TRUE".toList then some (.bool true)
    else if cs = "FALSE".toList then some (.bool false)
    else none
  | [.number cs] => (wholeOf? cs).map fun n => .int n
  | [.sign '-', .number cs] => (wholeOf? cs).map fun n => .int (-n)
  | _ => none

/-- Quotes come off, and digits are those of the number. -/
theorem denoted_ofLiteral {v : Literal} (h : v.isExact = true) :
    denoted? (Token.ofLiteral v).lexemes = some v.toJson := by
  cases v with
  | null | float => cases h
  | bool b => cases b <;> rfl
  | text s =>
    have hread : lex (Token.quoted s).chars = some [.quoted s.toList] := by
      rw [Token.chars, lex, Mode.run_quoteChars]
      rfl
    rw [Token.ofLiteral, Token.lexemes_of_lex hread, denoted?, String.ofList_toList]
    rfl
  | int n =>
    cases n with
    | ofNat m =>
      have hread : lex (Token.int (Int.ofNat m)).chars = some [.number (Nat.toDigits 10 m)] := by
        rw [Token.chars_ofNat, Token.lex_decimal (Token.isDecimal_toDigits m)]
      rw [Token.ofLiteral, Token.lexemes_of_lex hread, denoted?, wholeOf_toDigits]
      rfl
    | negSucc m =>
      have hread : lex (Token.int (Int.negSucc m)).chars =
          some [.sign '-', .number (Nat.toDigits 10 (m + 1))] := by
        rw [Token.chars_negSucc, Token.lex_minus (Token.isDecimal_toDigits (m + 1))]
      rw [Token.ofLiteral, Token.lexemes_of_lex hread, denoted?, wholeOf_toDigits]
      rfl

namespace Statement
variable {st : Statement} {s : Select} {e : Expr} {i : Item} {line : List Token}

/-- The selects of a statement: subqueries, then the body. -/
def selects (st : Statement) : List Select := st.subqueries.map Prod.snd ++ [st.body]

theorem lex_text (st : Statement) :
    lex st.text.toList = some (st.tokens.flatMap Token.lexemes) := by
  rw [text, Token.text, String.toList_ofList]
  exact st.prints.lex_tokens

theorem infix_of_line (hs : s ∈ st.selects) (hline : line ∈ s.lines) : line <:+: st.tokens := by
  rcases List.mem_append.mp hs with hs | hs
  · obtain ⟨subquery, hsubquery, rfl⟩ := List.mem_map.mp hs
    have hne : st.subqueries.isEmpty = false := by
      simpa using List.ne_nil_of_mem hsubquery
    have hlines : line <:+: subqueryTokens subquery := by
      have hindented : line <:+: .plain "  " :: line := List.infix_cons List.infix_rfl
      have hwithin : .plain "  " :: line <:+: Token.separated "\n"
          (subquery.2.lines.map fun line => .plain "  " :: line) :=
        Token.infix_separated (List.mem_map_of_mem hline)
      exact (hindented.trans hwithin).trans ⟨[_, _], [_], rfl⟩
    rw [tokens, hne]
    exact (hlines.trans (Token.infix_separated (List.mem_map_of_mem hsubquery))).trans
      ⟨[_], _, rfl⟩
  · obtain rfl := List.mem_singleton.mp hs
    have hbody : line <:+: Token.separated "\n" st.body.lines := Token.infix_separated hline
    rw [tokens]
    split
    · exact hbody
    · exact hbody.trans ⟨.plain "WITH " :: (Token.separated ", " (st.subqueries.map subqueryTokens)
        ++ [.plain "\n"]), [], by simp⟩

theorem infix_of_filter (hs : s ∈ st.selects) (he : e ∈ s.filter) : e.tokens <:+: st.tokens := by
  have hline : Token.plain "WHERE " :: e.tokens ∈ s.lines := by
    have hfilter : s.filter = some e := he
    simp [Select.lines, hfilter]
  exact (List.infix_cons List.infix_rfl).trans (infix_of_line hs hline)

theorem infix_of_item (hs : s ∈ st.selects) (hi : i ∈ s.items) :
    i.expr.tokens <:+: st.tokens := by
  have hline : Token.plain (if s.distinct then "SELECT DISTINCT " else "SELECT ") ::
      Token.separated ", " (s.items.map Item.tokens) ∈ s.lines := by
    simp [Select.lines]
  have hexpr : i.expr.tokens <:+: i.tokens := by
    rw [Item.tokens]
    split
    · exact (List.prefix_append _ _).isInfix
    · exact List.infix_rfl
  exact (hexpr.trans (Token.infix_separated (List.mem_map_of_mem hi))).trans
    ((List.infix_cons List.infix_rfl).trans (infix_of_line hs hline))

theorem mem_conditions : e ∈ st.conditions ↔ ∃ s ∈ st.selects, e ∈ s.filter := by
  simp only [conditions, selects, List.mem_append, List.mem_filterMap, Option.mem_toList,
    List.mem_map, List.mem_singleton, Option.mem_def]
  grind

/-- An expression with a value in it stands in the text of the statement, which is read back token
by token. -/
structure Spells (st : Statement) (e : Expr) (v : Literal) : Prop where
  reads : lex st.text.toList = some (st.tokens.flatMap Token.lexemes)
  whole : e.tokens <:+: st.tokens
  value : .ofLiteral v ∈ e.tokens

end Statement
end CostQuery.Sql

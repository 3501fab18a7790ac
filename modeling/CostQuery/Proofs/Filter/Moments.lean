import CostQuery.Pipeline.Text
import CostQuery.Proofs.Filter.Asks
import CostQuery.Proofs.Filter.RelativeTime
import CostQuery.Proofs.Sql.Tokens
import CostQuery.Sql.Text

/-! Times relative to now as each store is told them, read back from what is written. -/

namespace CostQuery

namespace Sql

/-- The anchor at the head of SQL text, and what follows it. -/
def anchorOf? : List Lexeme → Option (Bool × List Lexeme)
  | .word now :: .sign '(' :: .sign ')' :: rest =>
    if now = "CURRENT_TIMESTAMP".toList then some (false, rest) else none
  | .word truncate :: .sign '(' :: .quoted unit :: .sign ',' :: .word now :: .sign '(' ::
      .sign ')' :: .sign ')' :: rest =>
    if truncate = "DATE_TRUNC".toList ∧ unit = "DAY".toList ∧ now = "CURRENT_TIMESTAMP".toList
    then some (true, rest) else none
  | _ => none

def unitOf? (word : List Char) : Option TimeUnit :=
  TimeUnit.ofName? (String.ofList (word.map Char.toLower))

/-- A sign, an interval, which has none itself, and the bracket that closes them. -/
def offsetOf? : List Lexeme → Option (Int × TimeUnit)
  | [.sign sign, .word interval, .number ds, .word unit, .sign ')'] =>
    if interval = "INTERVAL".toList then
      if sign = '+' then (unitOf? unit).map ((Decimal.digitsValue ds : Int), ·)
      else if sign = '-' then (unitOf? unit).map (-(Decimal.digitsValue ds : Int), ·)
      else none
    else none
  | _ => none

/-- An anchor, or in brackets an anchor and an offset. -/
def timeOf? : List Lexeme → Option RelativeTime
  | .sign '(' :: rest => do
    let (dayStart, rest) ← anchorOf? rest
    let offset ← offsetOf? rest
    return ⟨dayStart, some offset⟩
  | ls => match anchorOf? ls with
    | some (dayStart, []) => some ⟨dayStart, none⟩
    | _ => none

/-- A number between fixed texts is read as a number between their lexemes. -/
theorem lex_number {before after : List Char} {ls ls' : List Lexeme}
    (hbefore : Mode.run .between before = (ls, .between)) (hafter : lex (' ' :: after) = some ls')
    (n : Nat) : lex (before ++ (Nat.toDigits 10 n ++ ' ' :: after)) =
      some (ls ++ .number (Nat.toDigits 10 n) :: ls') := by
  have hdigits := Mode.run_decimal (Decimal.isDecimal_of_digits (Decimal.isDigits_toDigits n))
  have hnumber : lex (Nat.toDigits 10 n) = some [.number (Nat.toDigits 10 n)] := by
    rw [lex, hdigits]
    rfl
  have hrest : lex (Nat.toDigits 10 n ++ ' ' :: after) =
      some (.number (Nat.toDigits 10 n) :: ls') := by
    have hends : ∀ c ∈ (' ' :: after).head?,
        (Mode.run .between (Nat.toDigits 10 n)).2.endsAt c = true := by
      intro c hc
      obtain rfl := Option.some.inj hc
      rw [hdigits]
      rfl
    rw [lex_append hnumber hends, hafter]
    rfl
  have hfirst : lex before = some ls := by
    rw [lex, hbefore]
    simp [Mode.finish]
  rw [lex_append hfirst (fun c _ => by rw [hbefore]; rfl), hrest]
  rfl

/-! What is written. -/

def anchorExpr (dayStart : Bool) : Expr :=
  if dayStart then .call .dateTrunc [.text "DAY", .now] else .now

def anchorText (dayStart : Bool) : String :=
  if dayStart then "DATE_TRUNC('DAY', CURRENT_TIMESTAMP())" else "CURRENT_TIMESTAMP()"

def signText (negative : Bool) : String := if negative then " - " else " + "

/-- What stands before the amount. -/
def openingText (dayStart negative : Bool) : String :=
  "(" ++ anchorText dayStart ++ signText negative ++ "INTERVAL "

theorem anchorExpr_chars (dayStart : Bool) :
    (anchorExpr dayStart).tokens.flatMap Token.chars = (anchorText dayStart).toList := by
  cases dayStart <;> rfl

theorem momentOf_chars (dayStart : Bool) (amount : Int) (unit : TimeUnit) :
    (momentOf ⟨dayStart, some (amount, unit)⟩).tokens.flatMap Token.chars =
      (openingText dayStart (decide (amount < 0))).toList ++
        (Nat.toDigits 10 amount.natAbs ++ (unitWord unit ++ ")").toList) := by
  have hdigits : (toString (amount.natAbs : Int)).toList = Nat.toDigits 10 amount.natAbs :=
    Nat.toList_repr
  have hsign : arithmeticSign (if amount < 0 then .subtract else .add) =
      signText (decide (amount < 0)) := by
    by_cases h : amount < 0 <;> simp [h, signText, arithmeticSign]
  have htokens : (momentOf ⟨dayStart, some (amount, unit)⟩).tokens =
      .plain "(" :: ((anchorExpr dayStart).tokens ++
        .plain (arithmeticSign (if amount < 0 then .subtract else .add)) ::
          [.plain "INTERVAL ", .int amount.natAbs, .plain (unitWord unit), .plain ")"]) := rfl
  simp only [htokens, openingText, List.flatMap_cons, List.flatMap_append, anchorExpr_chars, hsign,
    hdigits, List.flatMap_nil, Token.chars, String.toList_append, List.append_assoc,
    List.append_nil]

/-! What is read. -/

theorem run_opening (dayStart negative : Bool) : ∃ ls,
    Mode.run .between (openingText dayStart negative).toList =
      (.sign '(' :: (ls ++ [.sign (if negative then '-' else '+'), .word "INTERVAL".toList]),
        .between) ∧
      ∀ rest, anchorOf? (ls ++ rest) = some (dayStart, rest) := by
  cases dayStart with
  | false =>
    refine ⟨[.word "CURRENT_TIMESTAMP".toList, .sign '(', .sign ')'], ?_, fun rest => rfl⟩
    cases negative <;> rfl
  | true =>
    refine ⟨[.word "DATE_TRUNC".toList, .sign '(', .quoted "DAY".toList, .sign ',',
      .word "CURRENT_TIMESTAMP".toList, .sign '(', .sign ')', .sign ')'], ?_, fun rest => rfl⟩
    cases negative <;> rfl

theorem lex_unitWord (unit : TimeUnit) : ∃ after word,
    (unitWord unit ++ ")").toList = ' ' :: after ∧
      lex (' ' :: after) = some [.word word, .sign ')'] ∧ unitOf? word = some unit := by
  cases unit with
  | second => exact ⟨"SECOND)".toList, "SECOND".toList, rfl, rfl, rfl⟩
  | minute => exact ⟨"MINUTE)".toList, "MINUTE".toList, rfl, rfl, rfl⟩
  | hour => exact ⟨"HOUR)".toList, "HOUR".toList, rfl, rfl, rfl⟩
  | day => exact ⟨"DAY)".toList, "DAY".toList, rfl, rfl, rfl⟩
  | week => exact ⟨"WEEK)".toList, "WEEK".toList, rfl, rfl, rfl⟩

/-- The sign and the magnitude make up the amount. -/
theorem offsetOf?_signed (amount : Int) {unit : TimeUnit} {word : List Char}
    (h : unitOf? word = some unit) :
    offsetOf? [.sign (if decide (amount < 0) then '-' else '+'), .word "INTERVAL".toList,
      .number (Nat.toDigits 10 amount.natAbs), .word word, .sign ')'] = some (amount, unit) := by
  have hvalue := Decimal.digitsValue_toDigits amount.natAbs
  by_cases hneg : amount < 0
  · simp [offsetOf?, h, hvalue, hneg, abs_of_neg hneg]
  · simp [offsetOf?, h, hvalue, hneg, abs_of_nonneg (Int.not_lt.mp hneg)]

theorem momentOf_read (t : RelativeTime) :
    (lex (Token.text (momentOf t).tokens).toList).bind timeOf? = some t := by
  rw [Token.text, String.toList_ofList]
  obtain ⟨dayStart, offset⟩ := t
  cases offset with
  | none => cases dayStart <;> rfl
  | some offset =>
    obtain ⟨amount, unit⟩ := offset
    obtain ⟨ls, hopening, hanchor⟩ := run_opening dayStart (decide (amount < 0))
    obtain ⟨after, word, hword, hafter, hunit⟩ := lex_unitWord unit
    have hoffset := offsetOf?_signed amount hunit
    rw [momentOf_chars, hword, lex_number hopening hafter]
    simp only [Option.bind_some, List.cons_append, List.append_assoc, List.nil_append, timeOf?,
      hanchor, Option.bind_eq_bind, hoffset]
    rfl

end Sql

namespace Pipeline

/-- The anchor that a date of a pipeline is. -/
def anchorOf? (v : Json) : Option Bool :=
  match v.member? "$dateTrunc" with
  | some spec =>
    if (spec.member? "date").bind Json.asText? = some "$$NOW" ∧
        (spec.member? "unit").bind Json.asText? = some "day" then some true else none
  | none => if v.asText? = some "$$NOW" then some false else none

def amountOf? : Json → Option Int
  | .num (.int n) => some n
  | _ => none

/-- An anchor, or an anchor to which a signed amount of a unit is added. -/
def timeOf? (v : Json) : Option RelativeTime :=
  match v.member? "$dateAdd" with
  | some spec => do
    let dayStart ← (spec.member? "startDate").bind anchorOf?
    let unit ← ((spec.member? "unit").bind Json.asText?).bind TimeUnit.ofName?
    let amount ← (spec.member? "amount").bind amountOf?
    return ⟨dayStart, some (amount, unit)⟩
  | none => (anchorOf? v).map (⟨·, none⟩)

theorem momentOf_read (t : RelativeTime) : timeOf? (momentOf t).toJson = some t := by
  obtain ⟨dayStart, offset⟩ := t
  cases offset with
  | none => cases dayStart <;> rfl
  | some offset =>
    obtain ⟨amount, unit⟩ := offset
    cases dayStart <;> cases unit <;> rfl

end Pipeline

namespace RelativeTime

/-- A text is read if it is an anchor, an offset or one after the other, and what is read is what it
names. Every time has such a text. What was read is written for both stores as the same signed
amount of the same unit from the same anchor, and comes to the same moment in both. -/
theorem read_exactly :
    (∀ s t, ofText? s = some t ↔ t.Spells s) ∧
    (∀ t : RelativeTime, (∀ o ∈ t.offset, isSignedWord o.1 = true ∧ o.1 ≠ -Nat.pow 2 63) →
      ofText? t.text = some t) ∧
    ∀ s t, ofText? s = some t →
      (∀ o ∈ t.offset, o.1.natAbs ≤ maxAmount) ∧
      (Sql.lex (Sql.Token.text (Sql.momentOf t).tokens).toList).bind Sql.timeOf? = some t ∧
      Pipeline.timeOf? (Pipeline.momentOf t).toJson = some t ∧
      ∀ (g : Engine) (f : Fields), (Sql.momentOf t).value g f = .moment (t.moment g) ∧
        (Pipeline.momentOf t).value? g f = some (.moment (t.moment g)) := by
  refine ⟨fun s t => ofText?_eq_some, fun t h => ?_, fun s t h => ?_⟩
  · refine ofText?_eq_some.mpr (spells_text fun o ho => ?_)
    obtain ⟨hword, hne⟩ := h o ho
    have hbounds : -Nat.pow 2 63 ≤ o.1 ∧ o.1 < Nat.pow 2 63 := of_decide_eq_true hword
    have hmax : maxAmount + 1 = Nat.pow 2 63 := rfl
    omega
  · exact ⟨natAbs_le_of_spells (ofText?_eq_some.mp h), Sql.momentOf_read t,
      Pipeline.momentOf_read t, fun g f => ⟨sql_momentOf t, pipeline_momentOf t⟩⟩

/-- The greatest amount, and its sign. -/
def farthest : RelativeTime := ⟨true, some (-9223372036854775807, .week)⟩

theorem read_exactly_farthest :
    ofText? "now/d-9223372036854775807w" = some farthest ∧
      (∀ o ∈ farthest.offset, isSignedWord o.1 = true ∧ o.1 ≠ -Nat.pow 2 63) ∧
      ofText? farthest.text = some farthest ∧
      (Sql.lex (Sql.Token.text (Sql.momentOf farthest).tokens).toList).bind Sql.timeOf? =
        some farthest ∧
      Pipeline.timeOf? (Pipeline.momentOf farthest).toJson = some farthest := by
  have h : ofText? "now/d-9223372036854775807w" = some farthest := rfl
  have hrange : ∀ o ∈ farthest.offset, isSignedWord o.1 = true ∧ o.1 ≠ -Nat.pow 2 63 := by
    intro o ho
    obtain rfl := Option.some.inj ho
    decide
  obtain ⟨-, htext, hread⟩ := read_exactly
  obtain ⟨-, hsql, hpipeline, -⟩ := hread _ _ h
  exact ⟨h, hrange, htext farthest hrange, hsql, hpipeline⟩

end RelativeTime
end CostQuery

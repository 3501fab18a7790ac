import CostQuery.Yaml.Layout
import CostQuery.Yaml.Plain
import CostQuery.Yaml.Quoted

/-! Tokens read from text. -/

namespace CostQuery.Yaml

/-- Pass over blanks, comments and line breaks up to the next token, and tell whether a name may
begin there. Outside brackets every line may begin with a name, and tabs may not stand before
one. -/
def toToken (inFlow : Bool) (inComment nameAllowed : Bool) (p : Place) :
    List Char → Bool × Cursor
  | [] => (nameAllowed, ⟨p, []⟩)
  | c :: rest =>
    if isBreak c then toToken inFlow false (nameAllowed || !inFlow) (p.pass c) rest
    else if inComment then toToken inFlow true nameAllowed (p.pass c) rest
    else if c = '#' then toToken inFlow true nameAllowed (p.pass c) rest
    else if c = ' ' || (c = '\t' && (inFlow || !nameAllowed)) || (c = '\ufeff' && p.column = 0) then
      toToken inFlow false nameAllowed (p.pass c) rest
    else (nameAllowed, ⟨p, c :: rest⟩)

/-- A token of one character, unless a scalar begins with it. -/
def mark? (l : Layout) (c : Cursor) : Option (Option Layout) :=
  match c.rest with
  | '[' :: _ => some (l.openBracket c.toPlace .openSeq)
  | '{' :: _ => some (l.openBracket c.toPlace .openMap)
  | ']' :: _ => some (l.closeBracket .closeSeq)
  | '}' :: _ => some (l.closeBracket .closeMap)
  | ',' :: _ => some l.comma
  | '-' :: rest => if atGap rest then some (l.item c.toPlace) else none
  | '?' :: rest => if l.inFlow || atGap rest then some (l.markedName c.toPlace) else none
  | ':' :: rest => if l.inFlow || atGap rest then some (l.value c.toPlace) else none
  | _ => none

def scalar? (l : Layout) (c : Cursor) : Option (Layout × Cursor) := do
  let l ← l.markName c.toPlace
  match c.rest with
  | '\'' :: _ =>
    let (text, after) ← singleQuoted [] (c.skip 1) (c.rest.length + 1)
    return (l.scalar text true false, after)
  | '"' :: _ =>
    let (text, after) ← doubleQuoted [] (c.skip 1) (c.rest.length + 1)
    return (l.scalar text true false, after)
  | cs =>
    if startsPlain l.inFlow cs then
      let plain ← plainFrom l.inFlow l.scalarColumn [] [] c (cs.length + 1)
      return (l.scalar plain.text false plain.endsLine, plain.after)
    else none

/-- The next token of a text that begins with one. -/
def token? (l : Layout) (c : Cursor) : Option (Layout × Cursor) :=
  if c.isAtMarks '-' then (l.marker .start).map (·, c.skip 3)
  else if c.isAtMarks '.' then (l.marker .finish).map (·, c.skip 3)
  else match mark? l c with
    | some next => next.map (·, c.skip 1)
    | none => scalar? l c

/-- The tokens of a text, one token of the text for each step of fuel. -/
def tokensWithin : Nat → Layout → Cursor → Option (List Token)
  | 0, _, _ => none
  | fuel + 1, l, c => do
    let (nameAllowed, c) := toToken l.inFlow false l.nameAllowed c.toPlace c.rest
    let l := (← (l.allowName nameAllowed).dropUnreached c.toPlace).closeTo c.column
    if c.rest.isEmpty then return (← l.closeAll.dropName).tokens.reverse
    else
      let (l, c) ← token? l c
      tokensWithin fuel l c

/-- Every token takes a character, so that the length of the text is fuel enough. -/
def tokens? (text : String) : Option (List Token) :=
  if text.toList.all isAllowed then
    tokensWithin (text.length + 1) .empty ⟨⟨0, 0, 0⟩, unifyBreaks text.toList⟩
  else none

end CostQuery.Yaml

import CostQuery.Yaml.Cursor

/-! Unquoted scalars. -/

namespace CostQuery.Yaml

def isFlowMark (c : Char) : Bool := c = ',' || c = '[' || c = ']' || c = '{' || c = '}'

/-- An unquoted scalar cannot begin with one of these. -/
def isIndicator (c : Char) : Bool :=
  ['-', '?', ':', ',', '[', ']', '{', '}', '#', '&', '*', '!', '|', '>', '\'', '"', '%', '@',
    '\x60'].contains c

def startsPlain (inFlow : Bool) : List Char → Bool
  | [] => false
  | c :: rest =>
    !(isGap c || isIndicator c) || (c = '-' && !atGap rest) ||
      (!inFlow && (c = '?' || c = ':') && !atGap rest)

/-- The end of a word: a gap, a colon before one, or a mark of the brackets around. -/
def endsWord (inFlow : Bool) : List Char → Bool
  | [] => true
  | ':' :: rest => atGap rest
  | c :: _ => isGap c || (inFlow && isFlowMark c)

/-- Inside brackets, a colon before a mark could end the word or not. -/
def isUnclear (inFlow : Bool) : List Char → Bool
  | ':' :: c :: _ => inFlow && (isFlowMark c || c = '?')
  | _ => false

def word? (inFlow : Bool) : List Char → Option (List Char)
  | [] => some []
  | c :: rest =>
    if isUnclear inFlow (c :: rest) then none
    else if endsWord inFlow (c :: rest) then some []
    else (word? inFlow rest).map (c :: ·)

/-- A tab on a further line, before the column in which the scalar may go on. -/
def hasTabBefore (column : Nat) : Option Nat → List Char → Bool
  | _, [] => false
  | place, c :: rest =>
    if isBreak c then hasTabBefore column (some 0) rest
    else match place with
      | none => hasTabBefore column none rest
      | some n => (c = '\t' && n < column) || hasTabBefore column (some (n + 1)) rest

structure Plain where
  text : List Char
  /-- The text after the scalar and the gap behind it. -/
  after : Cursor
  /-- The gap behind it has a break. -/
  endsLine : Bool

/-- Words with gaps between them, which outside brackets may not go back before a column. -/
def plainFrom (inFlow : Bool) (column : Nat) (done gap : List Char) (c : Cursor) :
    Nat → Option Plain
  | 0 => none
  | fuel + 1 =>
    if c.isAtMarker || c.rest.head? = some '#' then some ⟨done, c, gap.any isBreak⟩
    else do
      let word ← word? inFlow c.rest
      if word.isEmpty then some ⟨done, c, gap.any isBreak⟩
      else
        let done := done ++ folded gap ++ word
        let c := c.skip word.length
        let gap := c.gap
        let c := c.skip gap.length
        if hasTabBefore column none gap then none
        else if gap.isEmpty || (!inFlow && c.column < column) then
          some ⟨done, c, gap.any isBreak⟩
        else plainFrom inFlow column done gap c fuel

end CostQuery.Yaml

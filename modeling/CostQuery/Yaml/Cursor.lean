/-! Places in a text of lines. -/

namespace CostQuery.Yaml

def isBreak (c : Char) : Bool := c = '\n' || c = '\u2028' || c = '\u2029'

def isBlank (c : Char) : Bool := c = ' ' || c = '\t'

def isGap (c : Char) : Bool := isBlank c || isBreak c

/-- A gap, or the end. -/
def atGap : List Char → Bool
  | [] => true
  | c :: _ => isGap c

structure Place where
  line : Nat
  column : Nat
  /-- Bytes before it on its line. -/
  offset : Nat

def Place.pass (p : Place) (c : Char) : Place :=
  if isBreak c then ⟨p.line + 1, 0, 0⟩ else ⟨p.line, p.column + 1, p.offset + c.utf8Size⟩

/-- The text still to be read, and where it begins. -/
structure Cursor extends Place where
  rest : List Char

namespace Cursor

def skip (c : Cursor) (n : Nat) : Cursor :=
  ⟨(c.rest.take n).foldl Place.pass c.toPlace, c.rest.drop n⟩

/-- The blanks and line breaks that come next. -/
def gap (c : Cursor) : List Char := c.rest.takeWhile isGap

/-- Three equal marks at the head of a line, alone. -/
def isAtMarks (c : Cursor) (mark : Char) : Bool :=
  c.column = 0 && c.rest.take 3 = [mark, mark, mark] && atGap (c.rest.drop 3)

/-- Three dashes begin a document, and three points end one. -/
def isAtMarker (c : Cursor) : Bool := c.isAtMarks '-' || c.isAtMarks '.'

end Cursor

/-- What blanks and line breaks inside a scalar stand for. Blanks beside a break are dropped. A
first line feed is a space, or nothing where more breaks follow; other breaks stay. -/
def folded (gap : List Char) : List Char :=
  match gap.filter isBreak with
  | [] => gap
  | ['\n'] => [' ']
  | '\n' :: more => more
  | breaks => breaks

/-- Characters that a document may hold. -/
def isAllowed (c : Char) : Bool :=
  let n := c.toNat
  n = 0x09 || n = 0x0a || n = 0x0d || (0x20 ≤ n && n ≤ 0x7e) || n = 0x85 ||
    (0xa0 ≤ n && n ≤ 0xd7ff) || (0xe000 ≤ n && n ≤ 0xfffd) || 0x10000 ≤ n

/-- Returns and next-line characters break a line as line feeds do. -/
def unifyBreaks : List Char → List Char
  | '\r' :: '\n' :: rest => '\n' :: unifyBreaks rest
  | '\r' :: rest => '\n' :: unifyBreaks rest
  | c :: rest => (if c = '\u0085' then '\n' else c) :: unifyBreaks rest
  | [] => []

end CostQuery.Yaml

import CostQuery.Json.Token
import CostQuery.Yaml.Cursor

/-! Quoted scalars. -/

namespace CostQuery.Yaml

/-- The text up to a closing quote; a quote written twice stands for itself. -/
def singleQuoted (done : List Char) (c : Cursor) : Nat → Option (List Char × Cursor)
  | 0 => none
  | fuel + 1 =>
    if c.isAtMarker then none
    else match c.rest with
      | [] => none
      | '\'' :: '\'' :: _ => singleQuoted ('\'' :: done) (c.skip 2) fuel
      | '\'' :: _ => some (done.reverse, c.skip 1)
      | x :: _ =>
        if isGap x then
          singleQuoted ((folded c.gap).reverse ++ done) (c.skip c.gap.length) fuel
        else singleQuoted (x :: done) (c.skip 1) fuel

def escaped? : Char → Option Char
  | '0' => some '\x00'
  | 'a' => some '\x07'
  | 'b' => some '\x08'
  | 't' => some '\t'
  | '\t' => some '\t'
  | 'n' => some '\n'
  | 'v' => some '\x0b'
  | 'f' => some '\x0c'
  | 'r' => some '\r'
  | 'e' => some '\x1b'
  | ' ' => some ' '
  | '"' => some '"'
  | '/' => some '/'
  | '\\' => some '\\'
  | 'N' => some '\u0085'
  | '_' => some '\u00a0'
  | 'L' => some '\u2028'
  | 'P' => some '\u2029'
  | _ => none

/-- How many hexadecimal digits follow an escape. -/
def codeWidth? : Char → Option Nat
  | 'x' => some 2
  | 'u' => some 4
  | 'U' => some 8
  | _ => none

def codePoint? (digits : List Char) (width : Nat) : Option Char := do
  let digits := digits.take width
  if digits.length < width then none
  else
    let n ← digits.foldlM (fun n c => (Json.hexValue? c).map (n * 16 + ·)) 0
    if n.isValidChar then some (Char.ofNat n) else none

/-- The character of an escape without its backslash, and how long it is written. -/
def escape? : List Char → Option (Char × Nat)
  | [] => none
  | x :: rest =>
    match codeWidth? x with
    | some width => (codePoint? rest width).map (·, 1 + width)
    | none => (escaped? x).map (·, 1)

/-- The text up to a closing quote. A backslash takes away the break that it stands before. -/
def doubleQuoted (done : List Char) (c : Cursor) : Nat → Option (List Char × Cursor)
  | 0 => none
  | fuel + 1 =>
    if c.isAtMarker then none
    else match c.rest with
      | [] => none
      | '"' :: _ => some (done.reverse, c.skip 1)
      | '\\' :: rest =>
        if rest.head?.any isBreak then
          let c := c.skip 2
          doubleQuoted ((c.gap.filter isBreak).reverse ++ done) (c.skip c.gap.length) fuel
        else do
          let (char, width) ← escape? rest
          doubleQuoted (char :: done) (c.skip (1 + width)) fuel
      | x :: _ =>
        if isGap x then
          doubleQuoted ((folded c.gap).reverse ++ done) (c.skip c.gap.length) fuel
        else doubleQuoted (x :: done) (c.skip 1) fuel

end CostQuery.Yaml

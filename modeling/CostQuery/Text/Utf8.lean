/-! Texts of bytes that may be damaged. -/

namespace CostQuery.Text

/-- The least and the greatest value that a byte may have. -/
structure ByteRange where
  least : Nat
  greatest : Nat

def tailRange : ByteRange := ⟨0x80, 0xBF⟩

/-- The bytes that follow the first byte of a character, and the bits that the first byte gives. -/
def followers? (first : Nat) : Option (Nat × List ByteRange) :=
  if first < 0x80 then some (first, [])
  else if first < 0xC2 then none
  else if first < 0xE0 then some (first - 0xC0, [tailRange])
  else if first = 0xE0 then some (0, [⟨0xA0, 0xBF⟩, tailRange])
  else if first = 0xED then some (0xD, [⟨0x80, 0x9F⟩, tailRange])
  else if first < 0xF0 then some (first - 0xE0, [tailRange, tailRange])
  else if first = 0xF0 then some (0, [⟨0x90, 0xBF⟩, tailRange, tailRange])
  else if first < 0xF4 then some (first - 0xF0, [tailRange, tailRange, tailRange])
  else if first = 0xF4 then some (4, [⟨0x80, 0x8F⟩, tailRange, tailRange])
  else none

/-- Read the bytes of a character, up to the first that is out of its range. -/
def follow (value : Nat) : List ByteRange → List UInt8 → Option Nat × List UInt8
  | [], rest => (some value, rest)
  | _ :: _, [] => (none, [])
  | range :: ranges, b :: rest =>
    if range.least ≤ b.toNat ∧ b.toNat ≤ range.greatest then
      follow (value * 64 + (b.toNat - 0x80)) ranges rest
    else (none, b :: rest)

theorem length_follow_le (value : Nat) (ranges : List ByteRange) (bytes : List UInt8) :
    (follow value ranges bytes).2.length ≤ bytes.length := by
  induction ranges generalizing value bytes with
  | nil => simp [follow]
  | cons range ranges ih =>
    cases bytes with
    | nil => simp [follow]
    | cons b rest =>
      simp only [follow]
      split
      · exact Nat.le_trans (ih _ rest) (Nat.le_succ _)
      · exact Nat.le_refl _

def replacement : Char := '\uFFFD'

/-- The first character, or the replacement of the bytes that could only begin one. -/
def nextChar (first : UInt8) (rest : List UInt8) : Char × List UInt8 :=
  match followers? first.toNat with
  | none => (replacement, rest)
  | some (value, ranges) =>
    match follow value ranges rest with
    | (some code, rest) => (Char.ofNat code, rest)
    | (none, rest) => (replacement, rest)

theorem length_nextChar_le (first : UInt8) (rest : List UInt8) :
    (nextChar first rest).2.length ≤ rest.length := by
  unfold nextChar
  split
  · exact Nat.le_refl _
  · rename_i value ranges _
    have h := length_follow_le value ranges rest
    split <;> (rename_i heq; simpa [heq] using h)

def charsOfBytes : List UInt8 → List Char
  | [] => []
  | first :: rest =>
    let next := nextChar first rest
    next.1 :: charsOfBytes next.2
termination_by bytes => bytes.length
decreasing_by exact Nat.lt_succ_of_le (length_nextChar_le first rest)

/-- The text of bytes; every damaged stretch is one replacement character. -/
def ofBytes (bytes : List UInt8) : String := String.ofList (charsOfBytes bytes)

end CostQuery.Text

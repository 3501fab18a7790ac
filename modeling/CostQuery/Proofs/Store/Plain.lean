import CostQuery.Calendar.Bound
import CostQuery.Proofs.Store.Value
import CostQuery.Text.Escape
import Mathlib.Data.List.Infix

/-! A store whose patterns are escaped texts, and whose moments are written as days. -/

namespace CostQuery

namespace Text

/-- The text that an escaped text stands for. -/
def unescape : List Char → List Char
  | '\\' :: c :: rest => c :: unescape rest
  | c :: rest => c :: unescape rest
  | [] => []

theorem unescape_cons {c : Char} (h : c ≠ '\\') (rest : List Char) :
    unescape (c :: rest) = c :: unescape rest := by
  cases rest with
  | nil => simp [unescape]
  | cons d rest =>
    rw [unescape]
    intro _ _ he _
    exact h he

/-- Escaping loses nothing, if the backslash itself is escaped. -/
theorem unescape_escape {special : List Char} (h : '\\' ∈ special) (text : String) :
    unescape (escape special text).toList = text.toList := by
  rw [escape, String.toList_ofList]
  induction text.toList with
  | nil => rfl
  | cons c rest ih =>
    rw [List.flatMap_cons]
    by_cases hc : special.contains c = true
    · rw [if_pos hc, List.cons_append, List.singleton_append, unescape, ih]
    · have hne : c ≠ '\\' := by
        rintro rfl
        exact hc (List.contains_iff_mem.mpr h)
      rw [if_neg hc, List.singleton_append, unescape_cons hne, ih]

/-- The part occurs in the text, in either case of letters. -/
def occursAnyCase (part text : List Char) : Bool :=
  (text.map Char.toLower).tails.any (part.map Char.toLower).isPrefixOf

end Text

namespace Engine

def plain (now : Int) : Engine where
  now := now
  startOfDay t := t - t % TimeUnit.day.micros
  moment?
    | .text s => (DateText.date? s.toList).map (·.number * TimeUnit.day.micros)
    | .moment t => some t
    | _ => none
  regex pattern text := text.toList.tails.any (Text.unescape pattern.toList).isPrefixOf
  regexAnyCase pattern text := Text.occursAnyCase (Text.unescape pattern.toList) text.toList
  like pattern text :=
    Text.occursAnyCase (Text.unescape (pattern.toList.drop 1).dropLast) text.toList
  float _ := 0
  toText _ := .null
  toDecimal _ := .null
  mixed _ _ _ := none

end Engine
end CostQuery

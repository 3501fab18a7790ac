import CostQuery.Filter.RelativeTime
import CostQuery.Proofs.Decimal.Written

/-! The texts that name times relative to now. -/

namespace CostQuery

theorem Json.decimalValue_eq (ds : List Char) : decimalValue ds = Decimal.digitsValue ds := by
  have hstep : (fun n c => n * 10 + Number.digitValue c) =
      fun n (c : Char) => 10 * n + (c.toNat - '0'.toNat) := by
    funext n c
    rw [Nat.mul_comm]
    rfl
  rw [decimalValue, hstep]
  rfl

theorem Json.spanDigits_append {ds rest : List Char} (hds : ∀ d ∈ ds, d.isDigit = true)
    (hrest : ∀ c ∈ rest.head?, c.isDigit = false) : spanDigits (ds ++ rest) = (ds, rest) := by
  rw [spanDigits, List.span_eq_takeWhile_dropWhile, List.takeWhile_append_of_pos hds,
    List.dropWhile_append_of_pos hds]
  cases rest with
  | nil => simp
  | cons c rest =>
    have hc := hrest c rfl
    rw [List.takeWhile_cons_of_neg (by simp [hc]), List.dropWhile_cons_of_neg (by simp [hc]),
      List.append_nil]

theorem Json.spanDigits_eq {cs ds rest : List Char} (h : spanDigits cs = (ds, rest)) :
    cs = ds ++ rest ∧ ∀ d ∈ ds, d.isDigit = true := by
  rw [spanDigits, List.span_eq_takeWhile_dropWhile] at h
  obtain ⟨rfl, rfl⟩ := Prod.mk.inj h
  exact ⟨List.takeWhile_append_dropWhile.symm, fun d hd => List.mem_takeWhile_imp hd⟩

theorem TimeUnit.ofLetter?_eq_some {c : Char} {unit : TimeUnit} :
    ofLetter? c = some unit ↔ c = unit.letter := by
  constructor
  · intro h
    have hletter := List.find?_some h
    exact (of_decide_eq_true hletter).symm
  · rintro rfl
    cases unit <;> rfl

theorem TimeUnit.isDigit_letter (unit : TimeUnit) : unit.letter.isDigit = false := by
  cases unit <;> rfl

namespace RelativeTime
variable {cs : List Char} {s : String} {t : RelativeTime}

/-- The greatest signed count of 64 bits. -/
def maxAmount : Nat := Nat.pow 2 63 - 1

/-- An anchor as it may be written, and whether it is the start of the day. -/
inductive Anchor : List Char → Bool → Prop
  | unwritten : Anchor [] false
  | now : Anchor ['n', 'o', 'w'] false
  | today : Anchor ['n', 'o', 'w', '/', 'd'] true

/-- Digits of an amount that is not too great. -/
structure Amount (ds : List Char) : Prop where
  isDigits : Decimal.isDigits ds = true
  le_max : Decimal.digitsValue ds ≤ maxAmount

/-- An offset as it may be written. -/
inductive Offset : List Char → Option (Int × TimeUnit) → Prop
  | unwritten : Offset [] none
  | later {ds : List Char} (h : Amount ds) (unit : TimeUnit) :
      Offset ('+' :: (ds ++ [unit.letter])) (some (Decimal.digitsValue ds, unit))
  | earlier {ds : List Char} (h : Amount ds) (unit : TimeUnit) :
      Offset ('-' :: (ds ++ [unit.letter])) (some (-Decimal.digitsValue ds, unit))

/-- The text is an anchor and an offset, not both of them unwritten. -/
def Spells (text : String) (t : RelativeTime) : Prop :=
  text ≠ "" ∧ ∃ a o, text.toList = a ++ o ∧ Anchor a t.dayStart ∧ Offset o t.offset

/-! The parser takes exactly these. -/

theorem anchor_cases (cs : List Char) : ∃ a, cs = a ++ (anchor cs).2 ∧ Anchor a (anchor cs).1 := by
  unfold anchor
  split
  · exact ⟨_, rfl, .today⟩
  · exact ⟨_, rfl, .now⟩
  · exact ⟨[], rfl, .unwritten⟩

/-- No offset begins as an anchor goes on. -/
theorem anchor_append {a o : List Char} {dayStart : Bool} {offset : Option (Int × TimeUnit)}
    (ha : Anchor a dayStart) (ho : Offset o offset) : anchor (a ++ o) = (dayStart, o) := by
  cases ha <;> cases ho <;> rfl

/-- Amounts are the digits that pass both checks. -/
theorem amount_iff {ds : List Char} (hds : ∀ d ∈ ds, d.isDigit = true) : Amount ds ↔
    (ds.isEmpty || decide (Nat.pow 2 63 ≤ Json.decimalValue ds)) = false := by
  have hmax : ∀ n, n ≤ maxAmount ↔ n < Nat.pow 2 63 := fun n => Nat.le_iff_lt_add_one
  rw [Json.decimalValue_eq, Bool.or_eq_false_iff, List.isEmpty_eq_false_iff,
    decide_eq_false_iff_not, Nat.not_le, ← hmax]
  constructor
  · intro h
    exact ⟨(Decimal.isDigits_iff.mp h.isDigits).1, h.le_max⟩
  · rintro ⟨hne, hle⟩
    exact ⟨Decimal.isDigits_iff.mpr ⟨hne, hds⟩, hle⟩

theorem offset_of_offset? {sign : Char} {offset : Int × TimeUnit}
    (h : offset? sign cs = some offset) : Offset (sign :: cs) (some offset) := by
  rw [offset?] at h
  generalize hspan : Json.spanDigits cs = span at h
  obtain ⟨ds, rest⟩ := span
  obtain ⟨rfl, hdigits⟩ := Json.spanDigits_eq hspan
  simp only at h
  split at h
  · cases h
  · next hrange =>
    have hamount := (amount_iff hdigits).mpr (Bool.eq_false_iff.mpr hrange)
    split at h
    · next letter =>
      obtain ⟨unit, hunit, hsigned⟩ := Option.bind_eq_some_iff.mp h
      obtain rfl := TimeUnit.ofLetter?_eq_some.mp hunit
      rw [Json.decimalValue_eq] at hsigned
      split at hsigned
      · next hsign =>
        obtain rfl := Option.some.inj hsigned
        exact hsign ▸ .earlier hamount unit
      · split at hsigned
        · next hsign =>
          obtain rfl := Option.some.inj hsigned
          exact hsign ▸ .later hamount unit
        · cases hsigned
    · cases h

/-- The letter ends the digits. -/
theorem offset?_of_amount {ds : List Char} (h : Amount ds) (sign : Char) (unit : TimeUnit) :
    offset? sign (ds ++ [unit.letter]) =
      if sign = '-' then some (-(Decimal.digitsValue ds : Int), unit)
      else if sign = '+' then some ((Decimal.digitsValue ds : Int), unit)
      else none := by
  have hdigits := (Decimal.isDigits_iff.mp h.isDigits).2
  have hspan : Json.spanDigits (ds ++ [unit.letter]) = (ds, [unit.letter]) :=
    Json.spanDigits_append hdigits (by simp [unit.isDigit_letter])
  have hunit : TimeUnit.ofLetter? unit.letter = some unit := TimeUnit.ofLetter?_eq_some.mpr rfl
  have hrange := (amount_iff hdigits).mp h
  rw [← Json.decimalValue_eq]
  simp only [offset?, hspan, hrange, hunit]
  rfl

theorem ofText?_eq_some : ofText? s = some t ↔ t.Spells s := by
  obtain ⟨dayStart, offset⟩ := t
  unfold ofText? Spells
  constructor
  · intro h
    split at h
    · cases h
    · next hne =>
      refine ⟨by simpa using hne, ?_⟩
      obtain ⟨a, ha, hanchor⟩ := anchor_cases s.toList
      generalize anchor s.toList = read at h ha hanchor
      obtain ⟨dayStart', rest⟩ := read
      cases rest with
      | nil =>
        obtain ⟨rfl, rfl⟩ := mk.inj (Option.some.inj h)
        exact ⟨a, [], ha, hanchor, .unwritten⟩
      | cons sign rest =>
        obtain ⟨o, ho, h⟩ := Option.map_eq_some_iff.mp h
        obtain ⟨rfl, rfl⟩ := mk.inj h
        exact ⟨a, sign :: rest, ha, hanchor, offset_of_offset? ho⟩
  · rintro ⟨hne, a, o, htext, ha, ho⟩
    rw [if_neg (by simpa using hne), htext]
    simp only [anchor_append ha ho]
    cases ho with
    | unwritten => rfl
    | later h unit =>
      simp only [offset?_of_amount h]
      rfl
    | earlier h unit =>
      simp only [offset?_of_amount h]
      rfl

/-! One spelling of each. -/

def offsetChars : Option (Int × TimeUnit) → List Char
  | none => []
  | some (amount, unit) =>
    (if amount < 0 then '-' else '+') :: (Nat.toDigits 10 amount.natAbs ++ [unit.letter])

/-- The anchor is always written, and the amount without zeros before it. -/
def text (t : RelativeTime) : String :=
  String.ofList ((if t.dayStart then ['n', 'o', 'w', '/', 'd'] else ['n', 'o', 'w']) ++
    offsetChars t.offset)

theorem amount_toDigits {n : Nat} (h : n ≤ maxAmount) : Amount (Nat.toDigits 10 n) where
  isDigits := Decimal.isDigits_toDigits n
  le_max := by rwa [Decimal.digitsValue_toDigits]

theorem offset_offsetChars {offset : Option (Int × TimeUnit)}
    (h : ∀ o ∈ offset, o.1.natAbs ≤ maxAmount) : Offset (offsetChars offset) offset := by
  cases offset with
  | none => exact .unwritten
  | some o =>
    obtain ⟨amount, unit⟩ := o
    have hamount := amount_toDigits (h _ rfl)
    have hvalue := Decimal.digitsValue_toDigits amount.natAbs
    rw [offsetChars]
    split
    · next hneg =>
      have hoffset := Offset.earlier hamount unit
      rwa [hvalue, show -(amount.natAbs : Int) = amount by omega] at hoffset
    · next hpos =>
      have hoffset := Offset.later hamount unit
      rwa [hvalue, show (amount.natAbs : Int) = amount by omega] at hoffset

theorem spells_text (h : ∀ o ∈ t.offset, o.1.natAbs ≤ maxAmount) : t.Spells t.text := by
  refine ⟨?_, _, _, String.toList_ofList, ?_, offset_offsetChars h⟩
  · intro htext
    have hnil := congrArg String.toList htext
    rw [text, String.toList_ofList] at hnil
    cases hday : t.dayStart <;> simp [hday] at hnil
  · cases t.dayStart
    · exact .now
    · exact .today

/-- An amount that was read leaves room for its sign. -/
theorem natAbs_le_of_spells (h : t.Spells s) : ∀ o ∈ t.offset, o.1.natAbs ≤ maxAmount := by
  obtain ⟨-, a, chars, -, -, hoffset⟩ := h
  intro o ho
  rw [Option.mem_def.mp ho] at hoffset
  cases hoffset with
  | later hamount => simpa using hamount.le_max
  | earlier hamount => simpa using hamount.le_max

end RelativeTime
end CostQuery

import CostQuery.Proofs.Decimal.Span
import CostQuery.Proofs.Decimal.Written

/-! Every float has a written form of its own. -/

namespace CostQuery.Decimal
variable {ds : List Char}

/-- The bits of a float but for its sign. -/
def magnitudeBits (x : Float) : Nat := x.toBits.toNat % 2 ^ 63

theorem ofFloat_eq (x : Float) : Binary.ofFloat x = Binary.ofBits (magnitudeBits x) := by
  have hfraction : x.toBits.toNat % 2 ^ 52 = magnitudeBits x % 2 ^ 52 := by
    unfold magnitudeBits
    omega
  have hbiased : x.toBits.toNat / 2 ^ 52 % 2 ^ 11 = magnitudeBits x / 2 ^ 52 := by
    unfold magnitudeBits
    omega
  simp only [Binary.ofFloat, Nat.pow_eq, hfraction, hbiased]
  rfl

theorem toBits_injective : Function.Injective Float.toBits
  | ⟨_, _⟩, ⟨_, _⟩, rfl => rfl

theorem eq_of_bits {x y : Float} (hsign : isNegative x = isNegative y)
    (hbits : magnitudeBits x = magnitudeBits y) : x = y := by
  have hx := x.toBits.toNat_lt
  have hy := y.toBits.toNat_lt
  apply toBits_injective
  apply UInt64.toNat.inj
  simp only [isNegative, Nat.pow_eq, decide_eq_decide] at hsign
  unfold magnitudeBits at hbits
  omega

theorem holds_zero {b : Binary} (h : b.mantissa = 0) : b.Holds 0 := by
  have hlow : b.low = 0 := by
    rw [Binary.low, Binary.lowQuarters, h, Nat.mul_zero, Nat.zero_sub, Nat.cast_zero, zero_mul]
  have hhigh : 0 ≤ b.high := by
    unfold Binary.high
    positivity
  have heven : b.mantissa % 2 ≠ 1 := by omega
  exact ⟨hlow.le, hhigh, fun hodd => absurd hodd heven⟩

/-- A form of a magnitude: digits around a point or before an exponent, and a value that rounds to
the magnitude. -/
inductive Form (b : Binary) (pointZero : Bool) : List Char → Prop
  | positional {ds : List Char} (digits : isDigits ds = true) (lead : ℤ)
      (holds : b.Holds (digitsValue ds * 10 ^ (lead + 1 - ds.length))) :
      Form b pointZero (positionalChars ds lead pointZero)
  | exponent {ds : List Char} (digits : isDigits ds = true) (lead : ℤ)
      (holds : b.Holds (digitsValue ds * 10 ^ (lead + 1 - ds.length))) :
      Form b pointZero (exponentChars ds lead)

theorem exists_form (style : Style) (x : Float) : ∃ cs,
    Form (Binary.ofFloat x) style.pointZero cs ∧
      style.chars x = (if isNegative x then ['-'] else []) ++ cs := by
  refine ⟨_, ?_, rfl⟩
  generalize Binary.ofFloat x = b
  split
  · next hzero =>
    have hvalue : b.Holds (digitsValue ['0'] * 10 ^ (0 + 1 - (['0'].length : ℤ))) := by
      have hdigits : digitsValue ['0'] = 0 := digitsValue_zeros 1
      rw [hdigits, Nat.cast_zero, zero_mul]
      exact holds_zero hzero
    have hform : ∀ pointZero, Form b pointZero ('0' :: if pointZero then ['.', '0'] else []) :=
      fun pointZero => @Form.positional b pointZero ['0'] rfl 0 hvalue
    exact hform style.pointZero
  · next hnonzero =>
    have hheld := holds_shortest hnonzero style.tie
    have hdigits := isDigits_toDigits (shortest b style.tie).digits
    have hvalue : b.Holds (digitsValue (Nat.toDigits 10 (shortest b style.tie).digits) *
        10 ^ ((shortest b style.tie).exponent +
          (Nat.toDigits 10 (shortest b style.tie).digits).length - 1 + 1 -
          (Nat.toDigits 10 (shortest b style.tie).digits).length)) := by
      rw [digitsValue_toDigits, sub_add_cancel, add_sub_cancel_right]
      exact hheld
    simp only
    split
    · exact .positional hdigits _ hvalue
    · exact .exponent hdigits _ hvalue

namespace Form
variable {b : Binary} {pointZero : Bool} {cs : List Char}

theorem holds (h : Form b pointZero cs) : b.Holds (writtenValue cs) := by
  cases h with
  | positional hdigits lead hvalue =>
    have hall := (isDigits_iff.mp hdigits).2
    rw [writtenValue_plain fun c hc => mem_positionalChars hall hc,
      plainValue_positionalChars hall]
    exact hvalue
  | exponent hdigits lead hvalue =>
    rw [writtenValue_exponentChars hdigits]
    exact hvalue

theorem digitFirst (h : Form b pointZero cs) : DigitFirst cs := by
  cases h with
  | @positional ds hdigits lead =>
    obtain ⟨d, rest, rfl, hdigit⟩ := digitFirst_of_isDigits hdigits
    rw [positionalChars]
    split
    · exact ⟨'0', _, rfl, rfl⟩
    · exact ⟨d, _, rfl, hdigit⟩
  | @exponent ds hdigits lead =>
    obtain ⟨d, rest, rfl, hdigit⟩ := digitFirst_of_isDigits hdigits
    exact ⟨d, _, rfl, hdigit⟩

theorem mem (h : Form b pointZero cs) {c : Char} (hc : c ∈ cs) :
    c.isDigit = true ∨ c ∈ ['.', 'e', '-', '+'] := by
  cases h with
  | positional hdigits lead =>
    rcases mem_positionalChars (isDigits_iff.mp hdigits).2 hc with hdigit | rfl
    · exact .inl hdigit
    · exact .inr (by decide)
  | exponent hdigits lead =>
    rcases List.mem_append.mp hc with hc | hc
    · rcases mem_firstDigit (isDigits_iff.mp hdigits).2 hc with hdigit | rfl
      · exact .inl hdigit
      · exact .inr (by decide)
    · rcases List.mem_cons.mp hc with rfl | hc
      · exact .inr (by decide)
      · rcases List.mem_cons.mp hc with rfl | hc
        · split <;> exact .inr (by decide)
        · exact .inl (isDigit_of_mem_toDigits hc)

/-- With a point in whole values, no form is digits only. -/
theorem exists_mark (h : Form b true cs) : ∃ c ∈ cs, c = '.' ∨ c = 'e' := by
  cases h with
  | positional hdigits lead =>
    refine ⟨'.', ?_, .inl rfl⟩
    rw [positionalChars]
    split
    · exact List.mem_cons_of_mem _ List.mem_cons_self
    · refine List.mem_append_right _ ?_
      split
      · exact List.mem_cons_self
      · exact List.mem_cons_self
  | exponent hdigits lead =>
    exact ⟨'e', List.mem_append_right _ List.mem_cons_self, .inr rfl⟩

end Form

theorem Style.chars_injective (style : Style) : Function.Injective style.chars := by
  intro x y h
  obtain ⟨cs, hcs, hx⟩ := exists_form style x
  obtain ⟨cs', hcs', hy⟩ := exists_form style y
  have hsign : ∀ z, ∀ c ∈ (if isNegative z then ['-'] else []), c.isDigit = false := by
    intro z
    split <;> simp
  rw [hx, hy] at h
  obtain ⟨hsame, rfl⟩ := sign_cancel (hsign x) (hsign y) hcs.digitFirst hcs'.digitFirst h
  have hnegative : isNegative x = isNegative y := by
    revert hsame
    cases isNegative x <;> cases isNegative y <;> simp
  have hheld := hcs.holds
  have hheld' := hcs'.holds
  rw [ofFloat_eq] at hheld hheld'
  exact eq_of_bits hnegative (eq_of_holds hheld hheld')

end CostQuery.Decimal

import CostQuery.Proofs.Decimal.Plain
import Mathlib.Algebra.Order.Field.Power
import Mathlib.Algebra.Order.Field.Rat
import Mathlib.Tactic.FieldSimp
import Mathlib.Tactic.Ring

/-! Decimals in written form, read back as numbers. -/

namespace CostQuery.Decimal
variable {ds es cs : List Char} {n : Nat}

theorem isDigit_of_mem_toDigits {c : Char} (h : c ∈ Nat.toDigits 10 n) : c.isDigit = true :=
  (isDigits_iff.mp (isDigits_toDigits n)).2 c h

/-- The text begins with a digit. -/
def DigitFirst (cs : List Char) : Prop := ∃ d rest, cs = d :: rest ∧ d.isDigit = true

theorem digitFirst_of_isDigits (h : isDigits ds = true) : DigitFirst ds := by
  obtain ⟨hne, hall⟩ := isDigits_iff.mp h
  obtain ⟨d, rest, rfl⟩ := List.exists_cons_of_ne_nil hne
  exact ⟨d, rest, rfl, hall d List.mem_cons_self⟩

theorem takeWhile_sign {sign : List Char} (hsign : ∀ c ∈ sign, c.isDigit = false)
    (h : DigitFirst cs) : (sign ++ cs).takeWhile (!·.isDigit) = sign := by
  obtain ⟨d, rest, rfl, hdigit⟩ := h
  rw [List.takeWhile_append_of_pos fun c hc => by rw [hsign c hc]; rfl,
    List.takeWhile_cons_of_neg (by simp [hdigit]), List.append_nil]

/-- A sign is told from what follows it, if that begins with a digit. -/
theorem sign_cancel {sign sign' : List Char} (hsign : ∀ c ∈ sign, c.isDigit = false)
    (hsign' : ∀ c ∈ sign', c.isDigit = false) (hc : DigitFirst cs) (he : DigitFirst es)
    (h : sign ++ cs = sign' ++ es) : sign = sign' ∧ cs = es := by
  have hsame : sign = sign' := by
    rw [← takeWhile_sign hsign hc, h, takeWhile_sign hsign' he]
  subst hsame
  exact ⟨rfl, List.append_cancel_left h⟩

/-- The number that digits stand for. -/
def digitsValue (ds : List Char) : Nat := Nat.ofDigitChars 10 ds 0

theorem digitsValue_append (ds es : List Char) :
    digitsValue (ds ++ es) = 10 ^ es.length * digitsValue ds + digitsValue es := by
  rw [digitsValue, Nat.ofDigitChars_append, Nat.ofDigitChars_eq_ofDigitChars_zero]
  rfl

theorem digitsValue_zeros (n : Nat) : digitsValue (zeros n) = 0 := by
  rw [digitsValue, zeros, Nat.ofDigitChars_replicate_zero, Nat.mul_zero]

theorem digitsValue_toDigits (n : Nat) : digitsValue (Nat.toDigits 10 n) = n :=
  Nat.ofDigitChars_ten_toDigits

theorem toDigits_injective : Function.Injective (Nat.toDigits 10) :=
  Function.LeftInverse.injective digitsValue_toDigits

/-- Digits around a point, if there is one. -/
def plainValue (cs : List Char) : ℚ :=
  let fraction := (cs.dropWhile (· ≠ '.')).tail
  digitsValue (cs.takeWhile (· ≠ '.') ++ fraction) / 10 ^ fraction.length

/-- The exponent after its mark, zero if there is none. -/
def exponentValue : List Char → ℤ
  | _ :: '-' :: ds => -digitsValue ds
  | _ :: '+' :: ds => digitsValue ds
  | _ => 0

/-- The number that a written form without a sign stands for. -/
def writtenValue (cs : List Char) : ℚ :=
  plainValue (cs.takeWhile (· ≠ 'e')) * 10 ^ exponentValue (cs.dropWhile (· ≠ 'e'))

theorem ne_of_isDigit {d c : Char} (h : d.isDigit = true) (hc : c.isDigit = false) : d ≠ c := by
  rintro rfl
  rw [h] at hc
  cases hc

theorem plainValue_digits (h : ∀ d ∈ ds, d.isDigit = true) : plainValue ds = digitsValue ds := by
  have hne : ∀ d ∈ ds, decide (d ≠ '.') = true :=
    fun d hd => decide_eq_true (ne_of_isDigit (h d hd) rfl)
  rw [plainValue, List.takeWhile_eq_self_iff.mpr hne, List.dropWhile_eq_nil_iff.mpr hne]
  simp

theorem plainValue_point (h : ∀ d ∈ ds, d.isDigit = true) (es : List Char) :
    plainValue (ds ++ '.' :: es) = digitsValue (ds ++ es) / 10 ^ es.length := by
  have hne : ∀ d ∈ ds, decide (d ≠ '.') = true :=
    fun d hd => decide_eq_true (ne_of_isDigit (h d hd) rfl)
  have htake : (ds ++ '.' :: es).takeWhile (· ≠ '.') = ds := by
    rw [List.takeWhile_append_of_pos hne, List.takeWhile_cons_of_neg (by simp), List.append_nil]
  have hdrop : (ds ++ '.' :: es).dropWhile (· ≠ '.') = '.' :: es := by
    rw [List.dropWhile_append_of_pos hne, List.dropWhile_cons_of_neg (by simp)]
  rw [plainValue, htake, hdrop, List.tail_cons]

theorem isDigit_of_mem_zeros {d : Char} (h : d ∈ zeros n) : d.isDigit = true := by
  rw [List.eq_of_mem_replicate h]
  rfl

theorem digitsValue_zeros_append (n : Nat) (ds : List Char) :
    digitsValue (zeros n ++ ds) = digitsValue ds := by
  rw [digitsValue_append, digitsValue_zeros, Nat.mul_zero, Nat.zero_add]

theorem digitsValue_append_zeros (ds : List Char) (n : Nat) :
    digitsValue (ds ++ zeros n) = 10 ^ n * digitsValue ds := by
  rw [digitsValue_append, digitsValue_zeros, Nat.add_zero, zeros, List.length_replicate]

/-- A point after zeros only. -/
theorem plainValue_below_one (ds : List Char) (n : Nat) :
    plainValue ('0' :: '.' :: (zeros n ++ ds)) =
      digitsValue ds * 10 ^ (-(n + ds.length : ℤ)) := by
  have hpoint := @plainValue_point ['0'] (by simp) (zeros n ++ ds)
  have hvalue : digitsValue (['0'] ++ (zeros n ++ ds)) = digitsValue ds := by
    rw [← List.append_assoc]
    exact digitsValue_zeros_append (n + 1) ds
  have hlength : (-(n + ds.length : ℤ)) = -((zeros n ++ ds).length : ℤ) := by
    rw [List.length_append, zeros, List.length_replicate]
    push_cast
    rfl
  rw [List.singleton_append] at hpoint
  rw [hpoint, hvalue, hlength, zpow_neg, zpow_natCast, div_eq_mul_inv]

/-- Zeros after the digits, and perhaps one more after a point. -/
theorem plainValue_whole (h : ∀ d ∈ ds, d.isDigit = true) (n : Nat) (pointZero : Bool) :
    plainValue (ds ++ zeros n ++ if pointZero then ['.', '0'] else []) =
      digitsValue ds * 10 ^ (n : ℤ) := by
  have hdigits : ∀ d ∈ ds ++ zeros n, d.isDigit = true :=
    List.forall_mem_append.mpr ⟨h, fun d hd => isDigit_of_mem_zeros hd⟩
  have hzero : digitsValue ['0'] = 0 := digitsValue_zeros 1
  cases pointZero with
  | false =>
    rw [if_neg Bool.false_ne_true, List.append_nil, plainValue_digits hdigits,
      digitsValue_append_zeros, zpow_natCast]
    push_cast
    ring
  | true =>
    rw [if_pos rfl, plainValue_point hdigits, digitsValue_append, digitsValue_append_zeros, hzero,
      zpow_natCast]
    push_cast
    simp only [List.length_singleton]
    ring

/-- Digits with the first at a power of ten, however the point is put. -/
theorem plainValue_positionalChars (h : ∀ d ∈ ds, d.isDigit = true) (lead : ℤ) (pointZero : Bool) :
    plainValue (positionalChars ds lead pointZero) =
      digitsValue ds * 10 ^ (lead + 1 - ds.length) := by
  rw [positionalChars]
  split
  · next hlead =>
    rw [plainValue_below_one]
    congr 2
    omega
  · next hlead =>
    obtain ⟨n, hn⟩ : ∃ n : ℕ, lead + 1 = n := ⟨lead.toNat + 1, by omega⟩
    have hwhole : lead.toNat + 1 = n := by omega
    simp only [hwhole, hn]
    by_cases hlength : ds.length ≤ n
    · have hexponent : (n : ℤ) - ds.length = (n - ds.length : ℕ) := by omega
      rw [List.drop_of_length_le hlength, List.take_of_length_le hlength, List.isEmpty_nil,
        if_pos rfl, plainValue_whole h, hexponent]
    · have hrest : (ds.drop n).isEmpty = false := by
        rw [List.isEmpty_eq_false_iff, ne_eq, List.drop_eq_nil_iff]
        exact hlength
      have hnone : n - ds.length = 0 := by omega
      have hexponent : (n : ℤ) - ds.length = -((ds.drop n).length : ℤ) := by
        rw [List.length_drop]
        omega
      rw [hrest, if_neg Bool.false_ne_true, hnone, zeros, List.replicate_zero, List.append_nil,
        plainValue_point fun d hd => h d (List.mem_of_mem_take hd), List.take_append_drop,
        hexponent, zpow_neg, zpow_natCast, div_eq_mul_inv]

theorem plainValue_firstDigit (h : isDigits ds = true) :
    plainValue (ds.take 1 ++ if ds.length ≤ 1 then [] else '.' :: ds.drop 1) =
      digitsValue ds * 10 ^ (1 - ds.length : ℤ) := by
  obtain ⟨hne, hall⟩ := isDigits_iff.mp h
  have hlength : 0 < ds.length := List.length_pos_iff.mpr hne
  split
  · next hone =>
    have hexponent : (1 - ds.length : ℤ) = 0 := by omega
    rw [List.take_of_length_le hone, List.append_nil, plainValue_digits hall, hexponent, zpow_zero,
      mul_one]
  · have hexponent : (1 - ds.length : ℤ) = -((ds.drop 1).length : ℤ) := by
      rw [List.length_drop]
      omega
    rw [plainValue_point fun d hd => hall d (List.mem_of_mem_take hd), List.take_append_drop,
      hexponent, zpow_neg, zpow_natCast, div_eq_mul_inv]

theorem exponentValue_toDigits (mark : Char) (lead : ℤ) : exponentValue
    (mark :: (if lead < 0 then '-' else '+') :: Nat.toDigits 10 lead.natAbs) = lead := by
  split
  · rw [exponentValue, digitsValue_toDigits]
    omega
  · rw [exponentValue, digitsValue_toDigits]
    omega

theorem mem_positionalChars (h : ∀ d ∈ ds, d.isDigit = true) {lead : ℤ} {pointZero : Bool}
    {c : Char} (hc : c ∈ positionalChars ds lead pointZero) : c.isDigit = true ∨ c = '.' := by
  rw [positionalChars] at hc
  split at hc
  · rcases List.mem_cons.mp hc with rfl | hc
    · exact .inl rfl
    · rcases List.mem_cons.mp hc with rfl | hc
      · exact .inr rfl
      · exact .inl ((List.mem_append.mp hc).elim isDigit_of_mem_zeros (h c))
  · rcases List.mem_append.mp hc with hc | hc
    · rcases List.mem_append.mp hc with hc | hc
      · exact .inl (h c (List.mem_of_mem_take hc))
      · exact .inl (isDigit_of_mem_zeros hc)
    · split at hc
      · split at hc
        · rcases List.mem_pair.mp hc with rfl | rfl
          · exact .inr rfl
          · exact .inl rfl
        · cases hc
      · rcases List.mem_cons.mp hc with rfl | hc
        · exact .inr rfl
        · exact .inl (h c (List.mem_of_mem_drop hc))

theorem mem_firstDigit (h : ∀ d ∈ ds, d.isDigit = true) {c : Char}
    (hc : c ∈ ds.take 1 ++ if ds.length ≤ 1 then [] else '.' :: ds.drop 1) :
    c.isDigit = true ∨ c = '.' := by
  rcases List.mem_append.mp hc with hc | hc
  · exact .inl (h c (List.mem_of_mem_take hc))
  · split at hc
    · cases hc
    · rcases List.mem_cons.mp hc with rfl | hc
      · exact .inr rfl
      · exact .inl (h c (List.mem_of_mem_drop hc))

theorem ne_mark {c : Char} (h : c.isDigit = true ∨ c = '.') : decide (c ≠ 'e') = true := by
  rcases h with h | rfl
  · exact decide_eq_true (ne_of_isDigit h rfl)
  · rfl

theorem writtenValue_plain (h : ∀ c ∈ cs, c.isDigit = true ∨ c = '.') :
    writtenValue cs = plainValue cs := by
  have hne : ∀ c ∈ cs, decide (c ≠ 'e') = true := fun c hc => ne_mark (h c hc)
  rw [writtenValue, List.takeWhile_eq_self_iff.mpr hne, List.dropWhile_eq_nil_iff.mpr hne]
  exact mul_one _

/-- One digit, the others after a point, and an exponent. -/
theorem writtenValue_exponentChars (h : isDigits ds = true) (lead : ℤ) :
    writtenValue (exponentChars ds lead) = digitsValue ds * 10 ^ (lead + 1 - ds.length) := by
  have hne : ∀ c ∈ ds.take 1 ++ (if ds.length ≤ 1 then [] else '.' :: ds.drop 1),
      decide (c ≠ 'e') = true :=
    fun c hc => ne_mark (mem_firstDigit (isDigits_iff.mp h).2 hc)
  rw [writtenValue, exponentChars, List.takeWhile_append_of_pos hne,
    List.dropWhile_append_of_pos hne, List.takeWhile_cons_of_neg (by simp),
    List.dropWhile_cons_of_neg (by simp), List.append_nil, plainValue_firstDigit h,
    exponentValue_toDigits, mul_assoc, ← zpow_add₀ (by norm_num)]
  congr 2
  ring

end CostQuery.Decimal

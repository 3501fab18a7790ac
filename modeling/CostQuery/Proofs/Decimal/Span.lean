import CostQuery.Decimal.Shortest
import Mathlib.Algebra.Order.Field.Power
import Mathlib.Algebra.Order.Field.Rat
import Mathlib.Data.Rat.Cast.Order
import Mathlib.Order.Monotone.Basic
import Mathlib.Tactic.FieldSimp
import Mathlib.Tactic.Linarith
import Mathlib.Tactic.Ring

/-! Every magnitude has the decimals that round to it for itself, so that a shortest decimal tells
which float it was made from. -/

namespace CostQuery.Decimal

/-! The ends of a span, as rational numbers. -/

namespace Binary

/-- Half the way to the magnitude below, in quarters of the last place. -/
def lowQuarters (b : Binary) : Nat := 4 * b.mantissa - if b.narrowBelow then 1 else 2

def low (b : Binary) : ℚ := b.lowQuarters * 2 ^ (b.exponent - 2)

def high (b : Binary) : ℚ := (4 * b.mantissa + 2 : ℕ) * 2 ^ (b.exponent - 2)

/-- The number rounds to the magnitude. -/
structure Holds (b : Binary) (t : ℚ) : Prop where
  low_le : b.low ≤ t
  le_high : t ≤ b.high
  inside : b.mantissa % 2 = 1 → b.low < t ∧ t < b.high

end Binary

theorem pow_toNat {x : ℚ} (hx : x ≠ 0) (a : ℤ) : x ^ a.toNat = x ^ a * x ^ (-a).toNat := by
  rcases le_total 0 a with ha | ha
  · obtain ⟨n, rfl⟩ := Int.eq_ofNat_of_zero_le ha
    simp
  · obtain ⟨n, hn⟩ := Int.eq_ofNat_of_zero_le (Int.neg_nonneg.mpr ha)
    obtain rfl : a = -n := by omega
    have hpow : x ^ n ≠ 0 := pow_ne_zero n hx
    simp [hpow]

section
variable (m d : Nat) (a e : ℤ)

/-- What whole numbers are multiplied by to be compared. -/
def common (a e : ℤ) : ℚ := 2 ^ (-a).toNat * 10 ^ (-e).toNat

theorem common_pos : 0 < common a e := by
  unfold common
  positivity

theorem cast_binary :
    ((m * Nat.pow 2 a.toNat * fine e : ℕ) : ℚ) = m * 2 ^ a * common a e := by
  have hpow := pow_toNat (two_ne_zero (α := ℚ)) a
  rw [fine, Nat.pow_eq, Nat.pow_eq, common]
  push_cast
  rw [hpow]
  ring

theorem cast_decimal :
    ((d * coarse e * Nat.pow 2 (-a).toNat : ℕ) : ℚ) = d * 10 ^ e * common a e := by
  have hpow := pow_toNat (x := 10) (by norm_num) e
  rw [coarse, Nat.pow_eq, Nat.pow_eq, common]
  push_cast
  rw [hpow]
  ring

theorem binary_le : m * Nat.pow 2 a.toNat * fine e ≤ d * coarse e * Nat.pow 2 (-a).toNat ↔
    (m : ℚ) * 2 ^ a ≤ d * 10 ^ e := by
  rw [← Nat.cast_le (α := ℚ), cast_binary, cast_decimal, mul_le_mul_iff_left₀ (common_pos a e)]

theorem le_binary : d * coarse e * Nat.pow 2 (-a).toNat ≤ m * Nat.pow 2 a.toNat * fine e ↔
    (d : ℚ) * 10 ^ e ≤ m * 2 ^ a := by
  rw [← Nat.cast_le (α := ℚ), cast_binary, cast_decimal, mul_le_mul_iff_left₀ (common_pos a e)]

end

theorem holds_of_contains {b : Binary} {digits : Nat} {e : ℤ}
    (h : (Span.ofBinary b).contains digits e = true) : b.Holds (digits * 10 ^ e) := by
  have hlow := binary_le b.lowQuarters digits (b.exponent - 2) e
  have hhigh := le_binary (4 * b.mantissa + 2) digits (b.exponent - 2) e
  have hlt := (le_binary b.lowQuarters digits (b.exponent - 2) e).not
  have hgt := (binary_le (4 * b.mantissa + 2) digits (b.exponent - 2) e).not
  rw [neg_sub] at hlow hhigh hlt hgt
  rw [not_le, not_le] at hlt hgt
  rcases Nat.mod_two_eq_zero_or_one b.mantissa with heven | hodd
  · have hclosed : (Span.ofBinary b).closed = true := beq_iff_eq.mpr heven
    rw [Span.contains, if_pos hclosed, Bool.and_eq_true, decide_eq_true_eq, decide_eq_true_eq] at h
    exact ⟨hlow.mp h.1, hhigh.mp h.2, fun hodd => by omega⟩
  · have hopen : ¬ (Span.ofBinary b).closed = true := by simp [Span.ofBinary, hodd]
    rw [Span.contains, if_neg hopen, Bool.and_eq_true, decide_eq_true_eq, decide_eq_true_eq] at h
    have hinside : b.low < digits * 10 ^ e ∧ digits * 10 ^ e < b.high := ⟨hlt.mp h.1, hgt.mp h.2⟩
    exact ⟨hinside.1.le, hinside.2.le, fun _ => hinside⟩

theorem nearer_cases (s : Span) (tie : Tie) (low : Nat) (e : ℤ) :
    s.nearer tie low e = low ∨ s.nearer tie low e = low + 1 := by
  unfold Span.nearer
  grind

theorem contains_of_pickAt {s : Span} {tie : Tie} {e : ℤ} {digits : Nat}
    (h : s.pickAt tie e = some digits) : s.contains digits e = true := by
  simp only [Span.pickAt] at h
  split at h
  · next hlow hhigh =>
    obtain rfl := Option.some.inj h
    rcases nearer_cases s tie (s.floorAt e) e with hnear | hnear <;> rw [hnear]
    · exact hlow
    · exact hhigh
  · next hlow _ => exact Option.some.inj h ▸ hlow
  · next _ hhigh => exact Option.some.inj h ▸ hhigh
  · cases h

/-! Shortest decimals. -/

namespace Scientific

def value (d : Scientific) : ℚ := d.digits * 10 ^ d.exponent

theorem value_strip (fuel : Nat) (d : Scientific) : (d.strip fuel).value = d.value := by
  induction fuel generalizing d with
  | zero => rfl
  | succ fuel ih =>
    rw [strip]
    split
    · next h =>
      obtain ⟨n, hn⟩ : ∃ n, d.digits = 10 * n := ⟨d.digits / 10, by omega⟩
      have hten : (10 : ℚ) ≠ 0 := by norm_num
      rw [ih, value, value, hn, Nat.mul_div_cancel_left n (by decide), zpow_add_one₀ hten]
      push_cast
      ring
    · rfl

end Scientific

/-- A magnitude rounds to itself. -/
theorem Binary.holds_self (b : Binary) (hm : b.mantissa ≠ 0) :
    b.Holds (b.mantissa * 2 ^ b.exponent) := by
  have hquarters : (b.mantissa : ℚ) * 2 ^ b.exponent =
      (4 * b.mantissa : ℕ) * 2 ^ (b.exponent - 2) := by
    rw [zpow_sub₀ two_ne_zero]
    push_cast
    ring
  have hpos : (0 : ℚ) < 2 ^ (b.exponent - 2) := by positivity
  have hlow : b.lowQuarters < 4 * b.mantissa := by
    rw [lowQuarters]
    split <;> omega
  have hinside : b.low < b.mantissa * 2 ^ b.exponent ∧ b.mantissa * 2 ^ b.exponent < b.high := by
    rw [hquarters, low, high, mul_lt_mul_iff_left₀ hpos, mul_lt_mul_iff_left₀ hpos, Nat.cast_lt,
      Nat.cast_lt]
    omega
  exact ⟨hinside.1.le, hinside.2.le, fun _ => hinside⟩

theorem value_exact (b : Binary) :
    (Scientific.mk ((Span.ofBinary b).value * Nat.pow 5 (Span.ofBinary b).shift)
      (-((Span.ofBinary b).shift : ℤ))).value = b.mantissa * 2 ^ b.exponent := by
  have hpow := pow_toNat (two_ne_zero (α := ℚ)) (b.exponent - 2)
  have hten : (10 : ℚ) ^ (2 - b.exponent).toNat =
      2 ^ (2 - b.exponent).toNat * 5 ^ (2 - b.exponent).toNat := by
    rw [← mul_pow]
    norm_num
  have htwo : (2 : ℚ) ^ b.exponent = 4 * 2 ^ (b.exponent - 2) := by
    rw [zpow_sub₀ two_ne_zero]
    ring
  rw [neg_sub] at hpow
  simp only [Scientific.value, Span.ofBinary, Nat.pow_eq]
  rw [zpow_neg, zpow_natCast, hten, htwo]
  push_cast
  rw [hpow]
  field_simp

theorem holds_shortest {b : Binary} (hm : b.mantissa ≠ 0) (tie : Tie) :
    b.Holds (shortest b tie).value := by
  rw [shortest, Span.shortest, Scientific.value_strip]
  cases hfound : (List.range 17).findSome? _ with
  | none =>
    rw [Option.getD_none, value_exact]
    exact b.holds_self hm
  | some d =>
    obtain ⟨n, -, hn⟩ := List.exists_of_findSome?_eq_some hfound
    obtain ⟨digits, hdigits, rfl⟩ := Option.map_eq_some_iff.mp hn
    exact holds_of_contains (contains_of_pickAt hdigits)

/-! One magnitude after the other. -/

/-- The magnitude of the bits without a sign. -/
def Binary.ofBits (k : Nat) : Binary :=
  if k / 2 ^ 52 = 0 then ⟨k % 2 ^ 52, -1074, false⟩
  else ⟨2 ^ 52 + k % 2 ^ 52, (k / 2 ^ 52 : ℕ) - 1075, decide (k % 2 ^ 52 = 0 ∧ 1 < k / 2 ^ 52)⟩

theorem mantissa_ofBits (k : Nat) : (Binary.ofBits k).mantissa % 2 = k % 2 := by
  rw [Binary.ofBits]
  split <;> simp only <;> omega

theorem low_lt_high (b : Binary) : b.low < b.high := by
  have hpos : (0 : ℚ) < 2 ^ (b.exponent - 2) := by positivity
  have hquarters : b.lowQuarters < 4 * b.mantissa + 2 := by
    rw [Binary.lowQuarters]
    omega
  rw [Binary.low, Binary.high, mul_lt_mul_iff_left₀ hpos, Nat.cast_lt]
  exact hquarters

/-- One span ends where the next begins. After the last mantissa the exponent goes up. -/
theorem high_ofBits (k : Nat) : (Binary.ofBits k).high = (Binary.ofBits (k + 1)).low := by
  by_cases hlast : k % 2 ^ 52 + 1 < 2 ^ 52
  · have hdiv : (k + 1) / 2 ^ 52 = k / 2 ^ 52 := by omega
    have hmod : (k + 1) % 2 ^ 52 = k % 2 ^ 52 + 1 := by omega
    have hwide : ¬ (k % 2 ^ 52 + 1 = 0 ∧ 1 < k / 2 ^ 52) := by omega
    rw [Binary.ofBits, Binary.ofBits, hdiv, hmod, decide_eq_false hwide]
    split <;>
    · simp only [Binary.high, Binary.low, Binary.lowQuarters, Bool.false_eq_true, if_false]
      congr 2
  · have hdiv : (k + 1) / 2 ^ 52 = k / 2 ^ 52 + 1 := by omega
    have hmod : (k + 1) % 2 ^ 52 = 0 := by omega
    have hmax : k % 2 ^ 52 = 2 ^ 52 - 1 := by omega
    rw [Binary.ofBits, Binary.ofBits, hdiv, hmod, hmax, if_neg (Nat.succ_ne_zero _)]
    split
    · next hsubnormal =>
      have hwide : ¬ ((0 : ℕ) = 0 ∧ 1 < k / 2 ^ 52 + 1) := by omega
      rw [decide_eq_false hwide, hsubnormal]
      norm_num [Binary.high, Binary.low, Binary.lowQuarters]
    · next hnormal =>
      have hnarrow : (0 : ℕ) = 0 ∧ 1 < k / 2 ^ 52 + 1 := by omega
      have hup : ((k / 2 ^ 52 + 1 : ℕ) : ℤ) - 1075 - 2 = ((k / 2 ^ 52 : ℕ) - 1075 - 2 : ℤ) + 1 := by
        omega
      rw [decide_eq_true hnarrow]
      simp only [Binary.high, Binary.low, Binary.lowQuarters, if_true]
      rw [hup, zpow_add_one₀ two_ne_zero]
      push_cast
      ring

theorem strictMono_low : StrictMono fun k => (Binary.ofBits k).low :=
  strictMono_nat_of_lt_succ fun k => high_ofBits k ▸ low_lt_high _

/-- No number rounds to two magnitudes: of two that share an end one is odd. -/
theorem not_holds_of_lt {k k' : Nat} {t : ℚ} (hk : k < k') (h : (Binary.ofBits k).Holds t) :
    ¬ (Binary.ofBits k').Holds t := by
  intro h'
  have hnext : (Binary.ofBits (k + 1)).low ≤ (Binary.ofBits k').low :=
    strictMono_low.monotone hk
  have hend := high_ofBits k
  have hlow := h'.low_le
  have hhigh := h.le_high
  have hsame : k + 1 = k' := strictMono_low.injective (le_antisymm hnext (by linarith))
  rcases Nat.mod_two_eq_zero_or_one k with heven | hodd
  · have hinside := (h'.inside (by rw [mantissa_ofBits]; omega)).1
    linarith
  · have hinside := (h.inside (by rw [mantissa_ofBits]; omega)).2
    linarith

theorem eq_of_holds {k k' : Nat} {t : ℚ} (h : (Binary.ofBits k).Holds t)
    (h' : (Binary.ofBits k').Holds t) : k = k' := by
  rcases Nat.lt_trichotomy k k' with hlt | heq | hgt
  · exact absurd h' (not_holds_of_lt hlt h)
  · exact heq
  · exact absurd h (not_holds_of_lt hgt h')

end CostQuery.Decimal

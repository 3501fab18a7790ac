import CostQuery.Service.Retry
import Mathlib.Algebra.Order.Ring.Nat
import Mathlib.Tactic.Ring

/-! Pauses between attempts. They double from one to the next until they are as long as they may
be, and no word overflows on the way. -/

namespace CostQuery

theorem toNat_of_word? {n : Nat} {w : UInt64} (h : word? n = some w) : w.toNat = n := by
  rw [word?] at h
  split at h
  · obtain rfl := Option.some.inj h
    exact Nat.mod_eq_of_lt ‹_›
  · cases h

theorem size_le_of_word? {n : Nat} (h : word? n = none) : UInt64.size ≤ n := by
  rw [word?] at h
  split at h
  · cases h
  · omega

namespace Delay
variable {d e : Delay} {k : UInt32}

/-- In nanoseconds. -/
def total (d : Delay) : Nat := d.seconds.toNat * 1000000000 + d.nanos.toNat

theorem total_lt (d : Delay) : d.total < UInt64.size * 1000000000 := by
  have hseconds : d.seconds.toNat < UInt64.size := d.seconds.toNat_lt_size
  have hnanos := d.nanos_lt
  rw [total]
  omega

theorem total_ofMillis (ms : UInt64) : (ofMillis ms).total = ms.toNat * 1000000 := by
  have hseconds : (ofMillis ms).seconds.toNat = ms.toNat / 1000 := UInt64.toNat_div _ _
  have hnanos : (ofMillis ms).nanos.toNat = ms.toNat % 1000 * 1000000 := toNat_nanosOfMillis ms
  rw [total, hseconds, hnanos]
  omega

theorem millis_eq (d : Delay) : d.millis = d.total / 1000000 := by
  rw [millis, total]
  omega

theorem lt_iff_total : d < e ↔ d.total < e.total := by
  have hd := d.nanos_lt
  have he := e.nanos_lt
  rw [lt_def, UInt64.lt_iff_toNat_lt, UInt32.lt_iff_toNat_lt, ← UInt64.toNat_inj, total, total]
  omega

theorem total_min (d e : Delay) : (min d e).total = min d.total e.total := by
  have hmin : min d e = if e < d then e else d := rfl
  rw [hmin]
  by_cases hlt : e < d
  · have htotal := lt_iff_total.mp hlt
    rw [if_pos hlt]
    omega
  · have htotal := mt lt_iff_total.mpr hlt
    rw [if_neg hlt]
    omega

/-- Nanoseconds within a second, times a word of 32 bits, fit a word of 64. -/
theorem toNat_nanos_mul (d : Delay) (k : UInt32) :
    (d.nanos.toUInt64 * k.toUInt64).toNat = d.nanos.toNat * k.toNat := by
  have hk : k.toNat < UInt32.size := k.toNat_lt_size
  have hproduct : d.nanos.toNat * k.toNat ≤ 1000000000 * UInt32.size :=
    Nat.mul_le_mul (Nat.le_of_lt d.nanos_lt) (Nat.le_of_lt hk)
  rw [UInt64.toNat_mul, UInt32.toNat_toUInt64, UInt32.toNat_toUInt64]
  exact Nat.mod_eq_of_lt (Nat.lt_of_le_of_lt hproduct (by decide))

theorem toNat_carried (d : Delay) (k : UInt32) :
    (d.nanos.toUInt64 * k.toUInt64 / 1000000000).toNat = d.nanos.toNat * k.toNat / 1000000000 := by
  rw [UInt64.toNat_div, toNat_nanos_mul]
  rfl

theorem total_mul (d : Delay) (k : UInt32) : d.total * k.toNat =
    d.seconds.toNat * k.toNat * 1000000000 + d.nanos.toNat * k.toNat := by
  rw [total]
  ring

theorem total_times? (h : d.times? k = some e) : e.total = d.total * k.toNat := by
  obtain ⟨whole, hwhole, h⟩ := Option.bind_eq_some_iff.mp h
  obtain ⟨seconds, hseconds, h⟩ := Option.bind_eq_some_iff.mp h
  obtain rfl := Option.some.inj h
  have hproduct := toNat_of_word? hwhole
  have hsum := toNat_of_word? hseconds
  rw [toNat_carried] at hsum
  rw [total_mul, total]
  simp only [toNat_nanosWithin, toNat_nanos_mul]
  omega

/-- A product that can not be counted is longer than any delay. -/
theorem size_le_of_times? (h : d.times? k = none) :
    UInt64.size * 1000000000 ≤ d.total * k.toNat := by
  rw [total_mul]
  cases hwhole : word? (d.seconds.toNat * k.toNat) with
  | none =>
    have hsize := size_le_of_word? hwhole
    omega
  | some whole =>
    have hproduct := toNat_of_word? hwhole
    simp only [times?, hwhole, Option.bind_eq_bind, Option.bind_some] at h
    cases hseconds : word? (whole.toNat + (d.nanos.toUInt64 * k.toUInt64 / 1000000000).toNat) with
    | none =>
      have hsize := size_le_of_word? hseconds
      rw [toNat_carried] at hsize
      omega
    | some seconds =>
      rw [hseconds] at h
      cases h

end Delay

/-- Words count the delays, as they do in all settings that are read. -/
structure RetrySettings.InRange (s : RetrySettings) : Prop where
  base_lt : s.baseDelayMs < UInt64.size
  max_lt : s.maxDelayMs < UInt64.size

theorem Node.lt_of_toNatBelow? {bound value : Nat} {n : Node}
    (h : n.toNatBelow? bound = some value) : value < bound :=
  of_decide_eq_true (Option.filter_eq_some_iff.mp h).2

theorem lt_of_partOr {bound default value : Nat} {n : Option Node} (hdefault : default < bound)
    (h : partOr default (Node.toNatBelow? bound) n = some value) : value < bound := by
  cases n with
  | none => exact Option.some.inj h ▸ hdefault
  | some n => exact Node.lt_of_toNatBelow? h

theorem RetrySettings.inRange_of_ofNode? {format : Format} {n : Node} {s : RetrySettings}
    (h : RetrySettings.ofNode? format n = some s) : s.InRange := by
  obtain ⟨parts, -, h⟩ := Option.bind_eq_some_iff.mp h
  split at h
  · obtain ⟨attempts, -, h⟩ := Option.bind_eq_some_iff.mp h
    obtain ⟨base, hbase, h⟩ := Option.bind_eq_some_iff.mp h
    obtain ⟨longest, hmax, h⟩ := Option.bind_eq_some_iff.mp h
    obtain rfl := Option.some.inj h
    exact ⟨lt_of_partOr (by decide) hbase, lt_of_partOr (by decide) hmax⟩
  · cases h

namespace RetryPolicy
variable {s : RetrySettings} {attempt : Nat}

theorem toNat_factor (attempt : Nat) :
    (factor attempt).toNat = min (2 ^ (attempt - 1)) (2 ^ 32 - 1) := by
  have hword : ∀ n, (min n (UInt32.size - 1)).toUInt32.toNat = min n (UInt32.size - 1) := by
    intro n
    apply Nat.mod_eq_of_lt
    exact Nat.lt_of_le_of_lt (Nat.min_le_right _ _) (by decide)
  rw [factor, hword]
  by_cases hsmall : attempt - 1 ≤ 32
  · rw [Nat.min_eq_left hsmall]
    rfl
  · have hlarge : 2 ^ 32 - 1 < 2 ^ (attempt - 1) :=
      Nat.lt_of_lt_of_le (by decide) (Nat.pow_le_pow_right (by decide) (by omega : 32 ≤ attempt - 1))
    rw [Nat.min_eq_right (Nat.le_of_not_le hsmall), Nat.min_eq_right (Nat.le_of_lt hlarge)]
    rfl

theorem factor_mono {first second : Nat} (h : first ≤ second) :
    (factor first).toNat ≤ (factor second).toNat := by
  have hpow : 2 ^ (first - 1) ≤ 2 ^ (second - 1) := Nat.pow_le_pow_right (by decide) (by omega)
  rw [toNat_factor, toNat_factor]
  omega

/-- The longest pause is put for a product that can not be counted, which is longer anyway. -/
theorem total_delay (p : RetryPolicy) (attempt : Nat) : (p.delay attempt).total =
    min (p.baseDelay.total * (factor attempt).toNat) p.maxDelay.total := by
  rw [delay, Delay.total_min]
  cases hproduct : p.baseDelay.times? (factor attempt) with
  | none =>
    have hsize := Delay.size_le_of_times? hproduct
    have hmax := p.maxDelay.total_lt
    rw [Option.getD_none]
    omega
  | some product => rw [Option.getD_some, Delay.total_times? hproduct]

theorem total_delay_ofSettings (h : s.InRange) (attempt : Nat) :
    ((ofSettings s).delay attempt).total =
      min (s.baseDelayMs * (factor attempt).toNat) s.maxDelayMs * 1000000 := by
  have hbase : (ofSettings s).baseDelay.total = s.baseDelayMs * 1000000 :=
    (Delay.total_ofMillis _).trans (congrArg (· * 1000000) (Nat.mod_eq_of_lt h.base_lt))
  have hmax : (ofSettings s).maxDelay.total = s.maxDelayMs * 1000000 :=
    (Delay.total_ofMillis _).trans (congrArg (· * 1000000) (Nat.mod_eq_of_lt h.max_lt))
  rw [total_delay, hbase, hmax, Nat.mul_right_comm]
  omega

theorem delayMs_ofSettings (h : s.InRange) (attempt : Nat) : (ofSettings s).delayMs attempt =
    min (s.baseDelayMs * (factor attempt).toNat) s.maxDelayMs := by
  rw [delayMs, Delay.millis_eq, total_delay_ofSettings h]
  omega

/-- Every pause is a whole number of milliseconds. It is the first times a power of two, or the
longest that may be, and the power is of one more with every attempt until a word is full. -/
theorem delays_double (h : s.InRange) :
    (∀ attempt, ((ofSettings s).delay attempt).total =
        (ofSettings s).delayMs attempt * 1000000) ∧
      (∀ attempt, (ofSettings s).delayMs attempt ≤ s.maxDelayMs) ∧
      (∀ first second, first ≤ second →
        (ofSettings s).delayMs first ≤ (ofSettings s).delayMs second) ∧
      (∀ attempt, 1 ≤ attempt → attempt ≤ 32 → (ofSettings s).delayMs attempt =
        min (s.baseDelayMs * 2 ^ (attempt - 1)) s.maxDelayMs) ∧
      ∀ attempt, 32 < attempt → (ofSettings s).delayMs attempt =
        min (s.baseDelayMs * (2 ^ 32 - 1)) s.maxDelayMs := by
  refine ⟨?_, ?_, ?_, ?_, ?_⟩
  · intro attempt
    rw [delayMs_ofSettings h, total_delay_ofSettings h]
  · intro attempt
    rw [delayMs_ofSettings h]
    exact Nat.min_le_right _ _
  · intro first second hle
    have hfactor := Nat.mul_le_mul_left s.baseDelayMs (factor_mono hle)
    rw [delayMs_ofSettings h, delayMs_ofSettings h]
    omega
  · intro attempt hfirst hlast
    have hpow : 2 ^ (attempt - 1) ≤ 2 ^ 31 := Nat.pow_le_pow_right (by decide) (by omega)
    have hfactor : (factor attempt).toNat = 2 ^ (attempt - 1) := by
      rw [toNat_factor]
      omega
    rw [delayMs_ofSettings h, hfactor]
  · intro attempt hlast
    have hpow : 2 ^ 32 ≤ 2 ^ (attempt - 1) := Nat.pow_le_pow_right (by decide) (by omega)
    have hfactor : (factor attempt).toNat = 2 ^ 32 - 1 := by
      rw [toNat_factor]
      omega
    rw [delayMs_ofSettings h, hfactor]

/-- A first pause of half of what a word counts, and a longest of all of it. -/
def longSettings : RetrySettings where
  baseDelayMs := 9223372036854775808
  maxDelayMs := 18446744073709551615

/-- At the fortieth attempt the product has more seconds than a word counts. -/
theorem delays_double_long : longSettings.InRange ∧
    (ofSettings longSettings).delayMs 1 = 9223372036854775808 ∧
    (ofSettings longSettings).delayMs 2 = 18446744073709551615 ∧
    (ofSettings longSettings).baseDelay.times? (factor 40) = none ∧
    (ofSettings longSettings).delayMs 40 = 18446744073709551615 := by
  have hread : RetrySettings.ofNode? .json (.seq [.num (.int 3),
      .num (.int 9223372036854775808), .num (.int 18446744073709551615)]) =
        some longSettings := rfl
  have hrange := RetrySettings.inRange_of_ofNode? hread
  obtain ⟨-, -, -, hpower, hlast⟩ := delays_double hrange
  refine ⟨hrange, ?_, ?_, by decide, ?_⟩
  · exact hpower 1 (by decide) (by decide)
  · exact hpower 2 (by decide) (by decide)
  · rw [hlast 40 (by decide)]
    decide

end RetryPolicy
end CostQuery

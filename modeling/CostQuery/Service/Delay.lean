/-! Lengths of time as clocks count them, in words. -/

namespace CostQuery

/-- The word that counts so many, if there is one. -/
def word? (n : Nat) : Option UInt64 := if n < UInt64.size then some n.toUInt64 else none

/-- Whole seconds, and nanoseconds within the next. -/
structure Delay where
  seconds : UInt64
  nanos : UInt32
  nanos_lt : nanos.toNat < 1000000000
deriving DecidableEq

namespace Delay

theorem toNat_nanosOfMillis (ms : UInt64) :
    ((ms % 1000).toUInt32 * 1000000).toNat = ms.toNat % 1000 * 1000000 := by
  have hlt : ms.toNat % 1000 < 1000 := Nat.mod_lt _ (by decide)
  have hword : (ms % 1000).toUInt32.toNat = ms.toNat % 1000 := by
    rw [UInt64.toNat_toUInt32, UInt64.toNat_mod]
    exact Nat.mod_eq_of_lt (Nat.lt_trans hlt (by decide))
  have hnanos : ms.toNat % 1000 * 1000000 < UInt32.size := by
    simp only [UInt32.size]
    omega
  rw [UInt32.toNat_mul, hword]
  exact Nat.mod_eq_of_lt hnanos

theorem toNat_nanosWithin (nanos : UInt64) :
    (nanos % 1000000000).toUInt32.toNat = nanos.toNat % 1000000000 := by
  have hlt : nanos.toNat % 1000000000 < 1000000000 := Nat.mod_lt _ (by decide)
  rw [UInt64.toNat_toUInt32, UInt64.toNat_mod]
  exact Nat.mod_eq_of_lt (Nat.lt_trans hlt (by decide))

def ofMillis (ms : UInt64) : Delay where
  seconds := ms / 1000
  nanos := (ms % 1000).toUInt32 * 1000000
  nanos_lt := by
    rw [toNat_nanosOfMillis]
    omega

/-- Whole milliseconds. -/
def millis (d : Delay) : Nat := d.seconds.toNat * 1000 + d.nanos.toNat / 1000000

/-- So many times as long, if its seconds can be counted. The nanoseconds are multiplied in a word
of 64 bits, and the seconds among them carried over. -/
def times? (d : Delay) (factor : UInt32) : Option Delay := do
  let nanos := d.nanos.toUInt64 * factor.toUInt64
  let whole ← word? (d.seconds.toNat * factor.toNat)
  let seconds ← word? (whole.toNat + (nanos / 1000000000).toNat)
  return {
    seconds := seconds
    nanos := (nanos % 1000000000).toUInt32
    nanos_lt := by
      rw [toNat_nanosWithin]
      omega }

instance : LT Delay :=
  ⟨fun d e => d.seconds < e.seconds ∨ d.seconds = e.seconds ∧ d.nanos < e.nanos⟩

theorem lt_def {d e : Delay} :
    d < e ↔ d.seconds < e.seconds ∨ d.seconds = e.seconds ∧ d.nanos < e.nanos := Iff.rfl

instance (d e : Delay) : Decidable (d < e) := decidable_of_iff _ lt_def.symm

instance : Min Delay := ⟨fun d e => if e < d then e else d⟩

end Delay
end CostQuery

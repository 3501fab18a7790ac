import CostQuery.Service.Delay
import CostQuery.Service.Failure
import CostQuery.Settings

/-! Retries of calls that failed for a passing reason. -/

namespace CostQuery

structure RetryPolicy where
  /-- Attempts in all, the first included. -/
  maxAttempts : Nat
  baseDelay : Delay
  maxDelay : Delay

namespace RetryPolicy

def ofSettings (s : RetrySettings) : RetryPolicy :=
  ⟨max s.maxAttempts 1, .ofMillis s.baseDelayMs.toUInt64, .ofMillis s.maxDelayMs.toUInt64⟩

/-- The factor doubles with every attempt, up to the greatest of 32 bits. -/
def factor (attempt : Nat) : UInt32 :=
  (min (Nat.pow 2 (min (attempt - 1) 32)) (UInt32.size - 1)).toUInt32

/-- The pause after a failed attempt, counted from one. One that can not be counted is longer than
any that may be. -/
def delay (p : RetryPolicy) (attempt : Nat) : Delay :=
  min ((p.baseDelay.times? (factor attempt)).getD p.maxDelay) p.maxDelay

def delayMs (p : RetryPolicy) (attempt : Nat) : Nat := (p.delay attempt).millis

variable {m : Type → Type} [Monad m] {α : Type}

/-- Attempts from one on, of which `left` may follow. -/
def runFrom (p : RetryPolicy) (pause : Nat → m Unit) (call : m (Outcome α)) (attempt : Nat) :
    Nat → m (Outcome α)
  | 0 => call
  | left + 1 => do
    match ← call with
    | .ok a => return .ok a
    | .error failure =>
      if failure.isTransient then
        pause (p.delayMs attempt)
        runFrom p pause call (attempt + 1) left
      else return .error failure

/-- Call until it succeeds, fails for good, or no attempt is left. -/
def run (p : RetryPolicy) (pause : Nat → m Unit) (call : m (Outcome α)) : m (Outcome α) :=
  p.runFrom pause call 1 (p.maxAttempts - 1)

end RetryPolicy
end CostQuery

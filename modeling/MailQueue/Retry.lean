import MailQueue.Instant
import MailQueue.Number.Shortest

/-!
# Retries

When a failed task is due again. The delay grows by a factor with each attempt, computed in
floating point, and is then held between the base delay and thirty days.

* `RetryPolicy.nextDelay` is the delay in nanoseconds;
* `base_le_nextDelay` and `nextDelay_le` are its bounds, whatever the product comes to;
* `RetryPolicy.retryAt` is the instant; outside the calendar it is now. `le_retryAt`: it is never in
  the past.
-/

namespace MailQueue

def nsPerSecond : Nat := 1000000000

def nsPerMs : Nat := 1000000

/-- The longest delay that a factor can lead to: thirty days. -/
def maxRetryDelay : Nat := 30 * 24 * 60 * 60 * nsPerSecond

/-- The longest time between two instants that can be written down: a signed word of
milliseconds. -/
def maxSpan : Nat := 9223372036854775807 * nsPerMs

/-- How the delay between attempts grows. -/
structure RetryPolicy where
  /-- The delay after the first failure, in nanoseconds. -/
  baseDelay : Nat
  /-- The factor per attempt; at most one keeps the delay as it is. -/
  multiplier : Float

namespace RetryPolicy

/-- The policy with the same delay after each failure. -/
def constant (baseDelay : Nat) : RetryPolicy := ⟨baseDelay, 1⟩

/-- Squares `x` and halves `n` until nothing is left of it, and multiplies up the squares where `n`
was odd. -/
def powLoop : Nat → Float → Nat → Float → Float
  | 0, _, _, acc => acc
  | fuel + 1, x, n, acc =>
    let acc := if n % 2 = 1 then acc * x else acc
    if n / 2 = 0 then acc else powLoop fuel (x * x) (n / 2) acc

/-- `x` to the power `n`, by repeated squaring. -/
def pow (x : Float) (n : Nat) : Float := powLoop (n.log2 + 1) x n 1

/-- A number of nanoseconds in seconds. -/
def seconds (ns : Nat) : Float :=
  (ns / nsPerSecond).toUInt64.toFloat + (ns % nsPerSecond).toUInt64.toFloat / 1e9

/-- `n / d` rounded to the nearest, a tie to the even neighbour. -/
def roundDiv (n d : Nat) : Nat :=
  let q := n / d
  let r := n % d
  if 2 * r < d ∨ (2 * r = d ∧ q % 2 = 0) then q else q + 1

/-- Seconds as nanoseconds, rounded; none for what is negative, not a number, or too long for a
word of seconds. -/
def nanoseconds? (x : Float) : Option Nat :=
  if x < 0 || !x.isFinite then none
  else
    let p := Number.Parts.ofBits x.toBits
    let ns := if 0 ≤ p.q then p.m * Number.twoTo p.q.toNat * nsPerSecond
      else roundDiv (p.m * nsPerSecond) (Number.twoTo (-p.q).toNat)
    if UInt64.size * nsPerSecond ≤ ns then none else some ns

def clamp (lo hi x : Nat) : Nat := if x < lo then lo else if hi < x then hi else x

/-- The delay before the next attempt, so many having been made. -/
def nextDelay (p : RetryPolicy) (attempts : UInt32) : Nat :=
  if p.multiplier ≤ 1 then p.baseDelay
  else
    let exponent := min (attempts.toNat - 1) 2147483647
    let product := nanoseconds? (seconds p.baseDelay * pow p.multiplier exponent)
    clamp p.baseDelay (max maxRetryDelay p.baseDelay) (product.getD maxRetryDelay)

/-- When a task is due again that has just failed so many times. A delay that cannot be written
down counts as thirty days. -/
def retryAt (p : RetryPolicy) (now : Instant) (attempts : UInt32) : Instant :=
  let delay := p.nextDelay attempts
  (now.add? (if delay ≤ maxSpan then delay else maxRetryDelay)).getD now

theorem le_clamp {lo hi x : Nat} (h : lo ≤ hi) : lo ≤ clamp lo hi x := by
  unfold clamp; split
  · exact Nat.le_refl _
  · split
    · exact h
    · omega

theorem clamp_le {lo hi x : Nat} (h : lo ≤ hi) : clamp lo hi x ≤ hi := by
  unfold clamp; split
  · exact h
  · split
    · exact Nat.le_refl _
    · omega

theorem base_le_nextDelay (p : RetryPolicy) (attempts : UInt32) :
    p.baseDelay ≤ p.nextDelay attempts := by
  unfold nextDelay; split
  · exact Nat.le_refl _
  · exact le_clamp (Nat.le_max_right _ _)

theorem nextDelay_le (p : RetryPolicy) (attempts : UInt32) :
    p.nextDelay attempts ≤ max maxRetryDelay p.baseDelay := by
  unfold nextDelay; split
  · exact Nat.le_max_right _ _
  · exact clamp_le (Nat.le_max_right _ _)

theorem le_retryAt (p : RetryPolicy) (now : Instant) (attempts : UInt32) :
    now ≤ p.retryAt now attempts := by
  unfold retryAt
  simp only
  split <;> rcases h : now.add? _ with _ | t
  · exact Instant.le_refl now
  · exact Instant.le_of_add? h (Int.natCast_nonneg _)
  · exact Instant.le_refl now
  · exact Instant.le_of_add? h (Int.natCast_nonneg _)

end RetryPolicy

end MailQueue

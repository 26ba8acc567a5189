import MailQueue.Proofs.Letter
import MailQueue.Queue.Basic
import Mathlib.Data.List.Basic

/-!
# When a failed task is due again

The delay is held between two bounds whatever the floating-point product comes to, so that a task
is due again neither too early nor too late as long as the calendar has the instant. Beyond the end
of the calendar the task is due at once, or after thirty days if the delay could not be written down
in the first place.

* `RetryPolicy.Timely` are the bounds for the instant;
* `RetryPolicy.retryAt_of_add?` and `retryAt_of_beyond` are the instant in the two cases, and
  `timely_iff` says that the bounds are kept in the first case only;
* `retried_in_time` puts this together for the policy of a queue.
-/

namespace MailQueue

open Queue

namespace RetryPolicy

/-- Not before the base delay is over, and not after thirty days or the base delay, whichever is
longer. -/
structure Timely (p : RetryPolicy) (now t : Instant) : Prop where
  lower : now.ns + p.baseDelay ≤ t.ns
  upper : t.ns ≤ now.ns + max p.baseDelay maxRetryDelay

variable {p : RetryPolicy} {now t : Instant} {attempts : UInt32}

theorem le_maxSpan_of_add? (h : now.add? (p.nextDelay attempts : Nat) = some t) :
    p.nextDelay attempts ≤ maxSpan := by
  have ht := Instant.add?_eq_some_iff.1 h
  have := now.lower
  have := t.upper
  simp only [maxSpan, nsPerMs]
  omega

theorem retryAt_of_add? (h : now.add? (p.nextDelay attempts : Nat) = some t) :
    p.retryAt now attempts = t := by
  simp only [retryAt, if_pos (le_maxSpan_of_add? h), h, Option.getD_some]

theorem timely_of_add? (h : now.add? (p.nextDelay attempts : Nat) = some t) : p.Timely now t := by
  have ht := Instant.add?_eq_some_iff.1 h
  have hlower := p.base_le_nextDelay attempts
  have hupper := p.nextDelay_le attempts
  exact ⟨by omega, by omega⟩

/-- Where the calendar ends before the delay is over, thirty days stand in for a delay that cannot
be written down, and if there is no such instant either, the task is due at once. -/
theorem retryAt_of_beyond (h : now.add? (p.nextDelay attempts : Nat) = none) :
    p.retryAt now attempts =
      if maxSpan < p.nextDelay attempts then (now.add? maxRetryDelay).getD now else now := by
  by_cases hspan : maxSpan < p.nextDelay attempts
  · simp only [retryAt, if_neg (Nat.not_le.2 hspan), if_pos hspan]
  · simp only [retryAt, if_pos (Nat.not_lt.1 hspan), if_neg hspan, h, Option.getD_none]

/-- **The bounds are kept** if and only if the calendar has the instant when the delay is over. -/
theorem timely_iff (hp : 0 < p.baseDelay) :
    p.Timely now (p.retryAt now attempts) ↔
      (now.add? (p.nextDelay attempts : Nat)).isSome := by
  rcases h : now.add? (p.nextDelay attempts : Nat) with _ | t
  · rw [retryAt_of_beyond h]
    simp only [Option.isSome_none, Bool.false_eq_true, iff_false]
    rintro ⟨hlower, -⟩
    split at hlower
    · next hspan =>
      -- a delay that cannot be written down is the base delay, which is longer than thirty days
      have hle := p.nextDelay_le attempts
      rcases ht : now.add? maxRetryDelay with _ | t <;> rw [ht] at hlower
      · rw [Option.getD_none] at hlower
        omega
      · have ht := Instant.add?_eq_some_iff.1 ht
        rw [Option.getD_some] at hlower
        simp only [maxSpan, maxRetryDelay, nsPerMs, nsPerSecond] at *
        omega
    · omega
  · rw [retryAt_of_add? h]
    exact ⟨fun _ => rfl, fun _ => timely_of_add? h⟩

theorem Timely.lt_floorMs (h : p.Timely now t) (hp : nsPerMs ≤ p.baseDelay) : now < t.floorMs := by
  have hlower := h.lower
  have := Int.mul_fdiv_add_fmod t.ns 1000000
  have := Int.fmod_lt_of_pos t.ns (b := 1000000) (by omega)
  show now.ns < t.ns.fdiv 1000000 * 1000000
  simp only [nsPerMs] at hp
  omega

theorem not_isDue_rescheduled {now t : Instant} (h : now < t) (task : Task) (transport : Nat)
    (maxAttempts : UInt32) :
    ((Patch.reschedule t transport).apply task).isDue now maxAttempts = false := by
  rw [Bool.eq_false_iff]
  intro hdue
  have hle : t ≤ now := (Task.isDue_iff.1 hdue).2.1
  exact absurd hle (Int.not_le.2 h)

section

variable {config : Config} {hasStore : Bool} {transports : List Transport}
  {resolve : Option (Transport → Option String)} {q : Queue}

theorem baseDelay_of_build (h : build config hasStore transports resolve = .ok q) :
    q.retry.baseDelay = config.retryDelayMs.toNat * nsPerMs ∧ nsPerMs ≤ q.retry.baseDelay := by
  obtain ⟨hf, rfl⟩ := wire_of_build h
  have hpos := Config.retryDelayMs_pos_of_fault? hf
  exact ⟨rfl, Nat.le_mul_of_pos_left nsPerMs hpos⟩

/-- **When a failed task is due again.** As long as the calendar has the instant when the delay is
over, that is the instant; it keeps the bounds, and the task is not due before it, also where only
its milliseconds are kept. Otherwise the bounds are not kept. -/
theorem retried_in_time (h : build config hasStore transports resolve = .ok q) (now : Instant)
    (attempts : UInt32) :
    q.retry.baseDelay = config.retryDelayMs.toNat * nsPerMs ∧
      now ≤ q.retry.retryAt now attempts ∧
      (∀ t, now.add? (q.retry.nextDelay attempts : Nat) = some t →
        q.retry.retryAt now attempts = t ∧ q.retry.Timely now t ∧ now < t ∧ now < t.floorMs ∧
          ∀ (task : Task) (transport : Nat) (maxAttempts : UInt32),
            ((Patch.reschedule t transport).apply task).isDue now maxAttempts = false) ∧
      (now.add? (q.retry.nextDelay attempts : Nat) = none →
        q.retry.retryAt now attempts =
            (if maxSpan < q.retry.nextDelay attempts then (now.add? maxRetryDelay).getD now
            else now) ∧
          ¬q.retry.Timely now (q.retry.retryAt now attempts)) := by
  obtain ⟨hbase, hms⟩ := baseDelay_of_build h
  have hpos : 0 < q.retry.baseDelay := Nat.lt_of_lt_of_le (by decide) hms
  refine ⟨hbase, q.retry.le_retryAt now attempts, fun t ht => ?_, fun ht => ?_⟩
  · have htimely := timely_of_add? ht
    have hfloor := htimely.lt_floorMs hms
    have hlt : now < t := Int.lt_of_lt_of_le hfloor t.floorMs_le
    exact ⟨retryAt_of_add? ht, htimely, hlt, hfloor, not_isDue_rescheduled hlt⟩
  · refine ⟨retryAt_of_beyond ht, ?_⟩
    rw [timely_iff hpos, ht]
    exact Bool.false_ne_true

end

/-! ### The end of the calendar -/

/-- Settings with a delay that doubles. -/
def doubling : Config := { backoff := 2 }

def doubler : Queue := wire doubling [⟨"smtp", none⟩] none

theorem build_doubling : build doubling true [⟨"smtp", none⟩] none = .ok doubler := rfl

theorem delay_doubler : doubler.retry.nextDelay 3 = 240000000000 := by decide +kernel

def fourMinutes : Instant := { ns := 240000000000 }

theorem retried_in_time_epoch :
    build doubling true [⟨"smtp", none⟩] none = .ok doubler ∧
      Instant.epoch.add? (doubler.retry.nextDelay 3 : Nat) = some fourMinutes ∧
      doubler.retry.retryAt .epoch 3 = fourMinutes ∧ doubler.retry.Timely .epoch fourMinutes := by
  have hadd : Instant.epoch.add? (doubler.retry.nextDelay 3 : Nat) = some fourMinutes := by
    rw [delay_doubler]
    rfl
  obtain ⟨hat, htimely, -⟩ := (retried_in_time build_doubling .epoch 3).2.2.1 fourMinutes hadd
  exact ⟨build_doubling, hadd, hat, htimely⟩

/-- A hundred seconds before the end of the calendar. -/
def late : Instant := { ns := 8210266876700000 * 1000000 }

/-- A failed task is due again within the bounds, whatever the time is. -/
def RetriedInTimeAlways : Prop :=
  ∀ (config : Config) (hasStore : Bool) (transports : List Transport)
    (resolve : Option (Transport → Option String)) (q : Queue),
    build config hasStore transports resolve = .ok q → ∀ (now : Instant) (attempts : UInt32),
      1 ≤ attempts → q.retry.Timely now (q.retry.retryAt now attempts) ∧
        now < q.retry.retryAt now attempts

/-- The base delay of a minute would still end within the calendar. The third delay, of four
minutes, does not, and the task is due at once. -/
theorem not_retriedInTimeAlways : ¬RetriedInTimeAlways := by
  intro h
  have hbeyond : late.add? (doubler.retry.nextDelay 3 : Nat) = none := by
    rw [delay_doubler]
    exact (Instant.add?_eq_none_iff (by decide)).2 (by decide)
  have hat : doubler.retry.retryAt late 3 = late := by
    rw [retryAt_of_beyond hbeyond, delay_doubler, if_neg (by decide)]
  obtain ⟨-, hlt⟩ := h doubling true _ none doubler build_doubling late 3 (by decide)
  rw [hat] at hlt
  exact Int.lt_irrefl _ hlt

end RetryPolicy

end MailQueue

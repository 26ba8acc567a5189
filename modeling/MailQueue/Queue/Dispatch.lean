import MailQueue.Queue.Basic

/-!
# Sending what is due

A due task is claimed by a guarded update, compiled, handed to a transport, and then removed or
marked, put back, or given up. Nothing that goes wrong on the way is raised: listeners and the
report tell of it.

* `Queue.process` is the work on one task, `Queue.deliver` its attempt to send;
* `Queue.settle` and `Queue.handleFailure` are what follows a good and a failed attempt;
* `Queue.scout` finds the work on a due task, and `Queue.tick` goes through everything due once;
* `TickReport.absorb` counts an outcome.
-/

namespace MailQueue

/-- What a tick made of one task. -/
inductive TaskOutcome where
  /-- Not open any more, claimed by another, unreadable, or the claim failed. -/
  | skipped
  | sent
  | rescheduled
  /-- Given up. -/
  | failed
  deriving DecidableEq, Repr

structure TickReport where
  examined : Nat := 0
  claimed : Nat := 0
  sent : Nat := 0
  rescheduled : Nat := 0
  failed : Nat := 0
  skipped : Nat := 0
  deriving DecidableEq, Repr

namespace TickReport

def absorb (r : TickReport) (o : TaskOutcome) : TickReport :=
  let r := { r with examined := r.examined + 1 }
  match o with
  | .skipped => { r with skipped := r.skipped + 1 }
  | .sent => { r with claimed := r.claimed + 1, sent := r.sent + 1 }
  | .rescheduled => { r with claimed := r.claimed + 1, rescheduled := r.rescheduled + 1 }
  | .failed => { r with claimed := r.claimed + 1, failed := r.failed + 1 }

theorem examined_absorb (r : TickReport) (o : TaskOutcome) :
    (r.absorb o).examined = r.examined + 1 := by
  cases o <;> rfl

def toValue (r : TickReport) : Value :=
  .object [("examined", .nat r.examined), ("claimed", .nat r.claimed), ("sent", .nat r.sent),
    ("rescheduled", .nat r.rescheduled), ("failed", .nat r.failed), ("skipped", .nat r.skipped)]

end TickReport

namespace Queue

/-- One more attempt, held at the largest number there is. -/
def nextAttempt (attempts : UInt32) : UInt32 :=
  if attempts = 4294967295 then attempts else attempts + 1

/-- Tries to send a task through a transport. -/
def deliver (q : Queue) (index : Nat) (task : Task) : Work (Except DeliveryError SendReport) :=
  match q.pool.get? index with
  | none => return .error (.noTransport index)
  | some transport =>
    match q.compiler.compile transport task with
    | .error e => return .error (.compile e)
    | .ok message => do
      match ← send index message with
      | .report r => return if r.accepted.isEmpty then .error .notAccepted else .ok r
      | .error e => return .error (.transport index e)
      | .crash text => return .error (.crashed text)

/-- After a good attempt: the task goes, unless finished tasks are kept. -/
def settle (q : Queue) (task : Task) (report : SendReport) : Work TaskOutcome := do
  if !q.config.keepHistory then
    let _ ← call (.delete task.id)
  tell (.sent task report)
  return .sent

/-- After a failed attempt: the task is given up if it was the last, else put back. -/
def handleFailure (q : Queue) (task : Task) (index : Nat) (error : DeliveryError) :
    Work TaskOutcome := do
  if q.config.maxAttempts ≤ task.attempts then
    if q.config.keepHistory then
      let _ ← call (.mutate task.id .fail)
    else
      let _ ← call (.delete task.id)
    tell (.failed task error .gaveUp)
    return .failed
  else
    let transport := q.pool.afterFailure index task.attempts
    let now ← askNow
    let retryAt := q.retry.retryAt now task.attempts
    let _ ← call (.mutate task.id (.reschedule retryAt transport))
    tell (.failed task error (.rescheduled retryAt transport))
    return .rescheduled

/-- The task as the worker holds it after its claim. -/
def claimed (task : Task) : Task :=
  { task with attempts := nextAttempt task.attempts, sent := true }

/-- The work on one task: claim, send, and what follows. -/
def process (q : Queue) (task : Task) : Work TaskOutcome := do
  if !task.isOpen then return .skipped
  match ← call (.mutate task.id (.claim task.attempts (nextAttempt task.attempts))) with
  | .error _ => return .skipped
  | .ok false => return .skipped
  | .ok true =>
    let task := claimed task
    let index ← pick task.transport
    match ← q.deliver index task with
    | .ok report => q.settle task report
    | .error e => q.handleFailure task index e

/-- Finds the work on one entry of the list of due tasks; none if the entry turns out not to be
due. -/
def scout (q : Queue) (now : Instant) : Store.Due → Work (Option (Work TaskOutcome))
  | .task t => return some (q.process t)
  | .unreadable _ => return some (return .skipped)
  | .mark key => do
    match ← call (.look key now) with
    | .error _ => return some (return .skipped)
    | .ok none => return none
    | .ok (some t) => return some (q.process t)

/-- The work on a list of due tasks, one after the other. -/
def processAll (q : Queue) (now : Instant) (report : TickReport) :
    List Store.Due → Work TickReport
  | [] => return report
  | d :: rest => do
    match ← q.scout now d with
    | some work => q.processAll now (report.absorb (← work)) rest
    | none => q.processAll now report rest

/-- The time of a tick and the tasks due then. A process that only takes mail in has none, and so
has a store that cannot list them. -/
def dueNow (q : Queue) : Work (Option (Instant × List Store.Due)) := do
  if !q.config.mode.isConsumer then return none
  let now ← askNow
  match ← call (.due now) with
  | .error _ => return none
  | .ok due => return some (now, due)

/-- Sends everything due once, one task after the other. -/
def tick (q : Queue) : Work TickReport := do
  match ← q.dueNow with
  | none => return {}
  | some (now, due) => q.processAll now {} due

section Run

variable {σ : Type} {answer : (a : Ask) → σ → a.Answer × σ} {q : Queue} {now : Instant} {x y : σ}

theorem run_dueNow_eq (hc : q.config.mode.isConsumer = true) {x₁ : σ}
    (hnow : answer .now x = (now, x₁)) : q.dueNow.run answer x =
      (match (answer (.store (.due now)) x₁).1 with
        | .error _ => none
        | .ok due => some (now, due), (answer (.store (.due now)) x₁).2) := by
  unfold dueNow
  simp only [hc, Bool.not_true, Bool.false_eq_true, if_false]
  refine (Program.run_bind answer askNow _ x).trans ?_
  rw [show askNow.run answer x = answer .now x from rfl, hnow]
  refine (Program.run_bind answer (call (.due now)) _ x₁).trans ?_
  rw [show (call (.due now)).run answer x₁ = answer (.store (.due now)) x₁ from rfl]
  rcases answer (.store (.due now)) x₁ with ⟨e | due, y⟩ <;> rfl

theorem run_tick_eq (q : Queue) : q.tick.run answer x =
    match q.dueNow.run answer x with
    | (none, y) => ({}, y)
    | (some (now, due), y) => (q.processAll now {} due).run answer y := by
  refine (Program.run_bind answer q.dueNow _ x).trans ?_
  rcases q.dueNow.run answer x with ⟨_ | ⟨now, due⟩, y⟩ <;> rfl

theorem run_processAll_of_none {e : Store.Due} {z : σ} (r : TickReport) (es : List Store.Due)
    (h : (q.scout now e).run answer y = (none, z)) :
    (q.processAll now r (e :: es)).run answer y = (q.processAll now r es).run answer z := by
  refine (Program.run_bind answer (q.scout now e) _ y).trans ?_
  rw [h]

theorem run_processAll_of_some {e : Store.Due} {work : Work TaskOutcome} {z : σ} (r : TickReport)
    (es : List Store.Due) (h : (q.scout now e).run answer y = (some work, z)) :
    (q.processAll now r (e :: es)).run answer y =
      (q.processAll now (r.absorb (work.run answer z).1) es).run answer (work.run answer z).2 := by
  refine (Program.run_bind answer (q.scout now e) _ y).trans ?_
  rw [h]
  exact Program.run_bind answer work _ z

end Run

end Queue

end MailQueue

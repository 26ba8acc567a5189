import MailQueue.Request
import MailQueue.TaskId

/-!
# Tasks

The unit of work that is stored: one mail, or a group of mails to one recipient that will be sent
as one.

* `Task.state` reads the state off the flags, cancellation first and then failure;
* `Task.isOpen` is the state pending, `Task.isDue` adds the time and the attempts left.
-/

namespace MailQueue

/-- The state of a task. A task in the hands of a worker counts as sent. -/
inductive TaskState where
  | pending
  | sent
  | failed
  | cancelled
  deriving DecidableEq, Repr

/-- No further step leads out of the state. -/
def TaskState.isTerminal : TaskState → Bool
  | pending => false
  | _ => true

def TaskState.name : TaskState → String
  | pending => "pending"
  | sent => "sent"
  | failed => "failed"
  | cancelled => "cancelled"

structure Task where
  id : TaskId
  recipient : Recipient
  /-- Attempts made, one under way included. -/
  attempts : UInt32
  /-- Not to be sent before. -/
  sendAt : Instant
  sent : Bool
  cancelled : Bool
  failed : Bool
  template : Option String
  /-- The transport used last, or to be used next. -/
  transport : Nat
  concatSubject : Option String
  /-- The mails, in the order of their coming. -/
  fragments : List Mail
  deriving Inhabited

namespace Task

def new (id : TaskId) (mail : Mail) (sendAt : Instant) : Task where
  id := id
  recipient := mail.recipient
  attempts := 0
  sendAt := sendAt
  sent := false
  cancelled := false
  failed := false
  template := none
  transport := 0
  concatSubject := none
  fragments := [mail]

def state (t : Task) : TaskState :=
  if t.cancelled then .cancelled else if t.failed then .failed else if t.sent then .sent
  else .pending

/-- Neither sent nor cancelled nor failed. -/
def isOpen (t : Task) : Bool := !t.sent && !t.cancelled && !t.failed

/-- To be sent now: open, its time come, an attempt left. -/
def isDue (t : Task) (now : Instant) (maxAttempts : UInt32) : Bool :=
  t.isOpen && decide (t.sendAt ≤ now) && decide (t.attempts < maxAttempts)

def firstRecipient (t : Task) : Recipient :=
  match t.fragments with
  | m :: _ => m.recipient
  | [] => t.recipient

theorem isOpen_iff {t : Task} :
    t.isOpen = true ↔ t.sent = false ∧ t.cancelled = false ∧ t.failed = false := by
  simp [isOpen, and_assoc]

theorem isDue_iff {t : Task} {now : Instant} {maxAttempts : UInt32} :
    t.isDue now maxAttempts = true ↔
      t.isOpen = true ∧ t.sendAt ≤ now ∧ t.attempts < maxAttempts := by
  simp [isDue, and_assoc]

end Task

end MailQueue

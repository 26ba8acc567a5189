import MailQueue.Task.Letter

/-!
# Patches

A partial update of a stored task, with the condition under which it may be made.

* `Patch.claim`, `Patch.reschedule`, `Patch.fail` and `Patch.replaceFragments` are the updates that
  the queue makes;
* `Guard.holds` is the condition, `Patch.apply` the update without it, `Patch.applied?` both.
-/

namespace MailQueue

/-- Under which condition on the stored task a patch may be made. -/
inductive Guard where
  /-- The task is open and has made so many attempts. -/
  | unclaimed (attempts : UInt32)
  /-- In addition it holds so many mails. Mails are only ever added, so the same number means the
  same mails. -/
  | appendable (attempts : UInt32) (fragments : Nat)
  deriving DecidableEq, Repr

def Guard.holds (t : Task) : Guard → Bool
  | unclaimed attempts => t.isOpen && t.attempts == attempts
  | appendable attempts fragments =>
    t.isOpen && t.attempts == attempts && t.fragments.length == fragments

/-- A partial update; what is absent stays as it is. -/
structure Patch where
  attempts : Option UInt32 := none
  sendAt : Option Instant := none
  sent : Option Bool := none
  cancelled : Option Bool := none
  failed : Option Bool := none
  transport : Option Nat := none
  fragments : Option (List Mail) := none
  guard : Option Guard := none
  deriving Inhabited

namespace Patch

/-- Takes an open task in hand for another attempt. -/
def claim (previous attempts : UInt32) : Patch :=
  { attempts := some attempts, sent := some true, guard := some (.unclaimed previous) }

/-- Puts a task back after a failed attempt. -/
def reschedule (sendAt : Instant) (transport : Nat) : Patch :=
  { sent := some false, sendAt := some sendAt, transport := some transport }

def fail : Patch := { sent := some false, failed := some true }

def replaceFragments (fragments : List Mail) : Patch := { fragments := some fragments }

def guarded (p : Patch) (guard : Guard) : Patch := { p with guard := some guard }

def isEmpty (p : Patch) : Bool :=
  p.attempts.isNone && p.sendAt.isNone && p.sent.isNone && p.cancelled.isNone &&
    p.failed.isNone && p.transport.isNone && p.fragments.isNone

def guardHolds (p : Patch) (t : Task) : Bool :=
  match p.guard with
  | none => true
  | some g => g.holds t

def apply (p : Patch) (t : Task) : Task :=
  { t with
    attempts := p.attempts.getD t.attempts
    sendAt := p.sendAt.getD t.sendAt
    sent := p.sent.getD t.sent
    cancelled := p.cancelled.getD t.cancelled
    failed := p.failed.getD t.failed
    transport := p.transport.getD t.transport
    fragments := p.fragments.getD t.fragments }

/-- The task after the update, if the condition is met. -/
def applied? (p : Patch) (t : Task) : Option Task :=
  if p.guardHolds t then some (p.apply t) else none

/-- The fields that are set, under their persisted names. -/
def written (p : Patch) : Entries Value :=
  (p.attempts.map fun n => ("tries", Value.nat n.toNat)).toList ++
    (p.sendAt.map fun t => ("sendAt", Value.int t.ms)).toList ++
    (p.sent.map fun b => ("isSent", Value.bool b)).toList ++
    (p.cancelled.map fun b => ("isCancelled", Value.bool b)).toList ++
    (p.failed.map fun b => ("isFailed", Value.bool b)).toList ++
    (p.transport.map fun n => ("transport", Value.nat n)).toList ++
    (p.fragments.map fun ms => ("mailOptions", Value.list (ms.map Mail.written))).toList

def toValue (p : Patch) : Value := (Value.object p.written).merged

@[simp] theorem apply_id (p : Patch) (t : Task) : (p.apply t).id = t.id := rfl

theorem guardHolds_guarded (p : Patch) (g : Guard) (t : Task) :
    (p.guarded g).guardHolds t = g.holds t := rfl

end Patch

end MailQueue

import MailQueue.Store.Call

/-!
# Planned faults

What is to go wrong with the calls of a store: one queue of faults per kind of call, and each call
takes the next of its kind.

* `FaultPlan.take` gives the fault of a call and the plan without it;
* `FaultPlan.append` adds the faults of a further plan.
-/

namespace MailQueue.Rehearsal

/-- A write of another worker to the task of a call. -/
inductive Interference where
  | delete
  | patch (p : Patch)
  /-- A further mail joins the task. -/
  | append (mail : Mail)

/-- What happens to a call. -/
structure Fault where
  /-- Writes of other workers just before it. -/
  before : List Interference := []
  /-- The call fails for this cause. -/
  error : Option String := none
  /-- The result of an update, which then does not reach the store. -/
  result : Option Bool := none
  /-- Changes to the copies of due tasks. -/
  stale : Option Patch := none
  /-- How many unreadable entries follow the due tasks. -/
  unreadable : Nat := 0

/-- The faults of each kind of call, the next at the head. -/
structure FaultPlan where
  insert : List Fault := []
  find : List Fault := []
  cancel : List Fault := []
  delete : List Fault := []
  mutate : List Fault := []
  due : List Fault := []
  /-- The changes to the copies of the tasks that were listed last. -/
  listed : Option Patch := none

namespace FaultPlan

def append (a b : FaultPlan) : FaultPlan where
  insert := a.insert ++ b.insert
  find := a.find ++ b.find
  cancel := a.cancel ++ b.cancel
  delete := a.delete ++ b.delete
  mutate := a.mutate ++ b.mutate
  due := a.due ++ b.due
  listed := a.listed

/-- The fault of a call; to look a task up is part of the call that listed it. -/
def take (p : FaultPlan) (call : Store.Call) : Fault × FaultPlan :=
  match call with
  | .due _ =>
    let fault := p.due.headD {}
    (fault, { p with due := p.due.tail, listed := fault.stale })
  | .look _ _ => ({ stale := p.listed }, p)
  | .find _ _ => (p.find.headD {}, { p with find := p.find.tail })
  | .insert _ => (p.insert.headD {}, { p with insert := p.insert.tail })
  | .mutate _ _ => (p.mutate.headD {}, { p with mutate := p.mutate.tail })
  | .delete _ => (p.delete.headD {}, { p with delete := p.delete.tail })
  | .cancel _ => (p.cancel.headD {}, { p with cancel := p.cancel.tail })

end FaultPlan

end MailQueue.Rehearsal

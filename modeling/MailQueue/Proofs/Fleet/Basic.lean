import MailQueue.Proofs.Interleaving
import MailQueue.Queue.Dispatch
import MailQueue.Queue.Enqueue
import MailQueue.Store.Memory

/-!
# Queues that share a store

Any number of queues with the same settings over one store in memory, each call of a queue running
beside the others. One step answers one question: a call of the store is one step, and so is the
handing over of a message.

* `Fleet.Duty` is what a job is about: taking a request in, cancelling, listing what is due, or the
  work on one task that a tick has listed;
* `Fleet.Answers` says how a question may be answered: the store gives any answer that it may give
  with its tasks in some order, and any call of it may fail, without effect;
* `Fleet.rules` are the rules by which jobs start and questions are answered, and
  `Fleet.Reachable` what can be reached from an empty store.
-/

namespace MailQueue

open Interleaving

/-- Queues with the same settings. -/
structure Fleet where
  config : Config
  queue : Nat → Queue
  shared : ∀ i, (queue i).config = config

namespace Fleet

/-- What a job is about. -/
inductive Duty where
  | enqueue (request : Request)
  | cancel (id : TaskId)
  /-- The first part of a tick: the time and the tasks due then. -/
  | list
  /-- The work on a task that the tick of this number has listed. -/
  | process (tick : Nat) (task : Task)

structure Job where
  queue : Nat
  duty : Duty

@[reducible] def Duty.Result : Duty → Type
  | enqueue _ => Except EnqueueError TaskId
  | cancel _ => Bool
  | list => Option (Instant × List Store.Due)
  | process _ _ => TaskOutcome

@[reducible] def Job.Result (j : Job) : Type := j.duty.Result

def Duty.work (q : Queue) : (d : Duty) → Queue.Work d.Result
  | enqueue request => q.enqueue request
  | cancel id => Queue.cancel id
  | list => q.dueNow
  | process _ task => q.process task

/-- What the queues share, and what each of them keeps. -/
structure Shared where
  store : Memory
  clock : Instant
  /-- The transport whose turn it was last, by queue. -/
  cursor : Nat → Nat := fun _ => 0
  /-- The identifiers handed out. -/
  issued : List TaskId := []

abbrev State := Interleaving.State Queue.Ask Queue.Ask.Answer Job Job.Result Shared

abbrev Entry := Interleaving.Entry Queue.Ask Queue.Ask.Answer Job Shared

abbrev Thread := Interleaving.Thread Queue.Ask Queue.Ask.Answer Job Job.Result

abbrev Exchange := MailQueue.Exchange Queue.Ask Queue.Ask.Answer

/-- How a question of a queue may be answered, and what is shared afterwards. -/
inductive Answers (f : Fleet) (i : Nat) (x : Shared) :
    (q : Queue.Ask) → q.Answer → Shared → Prop where
  | now : Answers f i x .now x.clock x
  | freshId (id : TaskId) (h : id ∉ x.issued) :
      Answers f i x .freshId id { x with issued := id :: x.issued }
  | store (c : Store.Call) {a : c.Answer} (h : x.store.Allows c a) :
      Answers f i x (.store c) a { x with store := (x.store.answer c).2 }
  /-- The call fails and nothing happens. -/
  | fault (c : Store.Call) (e : StoreError) : Answers f i x (.store c) (Store.Call.failed e c) x
  | pick (stored : Nat) :
      Answers f i x (.pick stored) ((f.queue i).pool.select (x.cursor i) stored).1
        { x with cursor :=
            Function.update x.cursor i ((f.queue i).pool.select (x.cursor i) stored).2 }
  | send (index : Nat) (message : Mail) (outcome : SendOutcome) :
      Answers f i x (.send index message) outcome x
  | tell (e : Event) : Answers f i x (.tell e) () x

/-- The jobs on tasks that a tick has listed, in the order of starting. -/
def hands (s : State) (tick : Nat) : List Thread :=
  s.threads.filter fun th => match th.job.duty with
    | .process k _ => k == tick
    | _ => false

def ended (th : Thread) : Bool :=
  match th.work with
  | .done _ => true
  | .ask _ _ => false

/-- A tick goes on to the next task of its list, as long as fewer are under way than its queue
works on at one time. -/
def TakesUp (f : Fleet) (s : State) (i tick : Nat) (task : Task) : Prop :=
  ∃ now due, s.threads[tick]? = some ⟨⟨i, .list⟩, .done (some (now, due))⟩ ∧
    due[(hands s tick).length]? = some (.task task) ∧
    (hands s tick).countP (fun th => !ended th) < max f.config.tickConcurrency 1

/-- The rules of a fleet: calls start at any time, the work on a task when its tick takes it up. -/
def rules (f : Fleet) : Rules Queue.Ask Queue.Ask.Answer Job Job.Result Shared where
  work j := j.duty.work (f.queue j.queue)
  starts s j x := x = s.shared ∧ match j.duty with
    | .process tick task => f.TakesUp s j.queue tick task
    | _ => True
  answers j q x a y := f.Answers j.queue x q a y
  moves x y := ∃ t, y = { x with clock := t }

def storeOf (f : Fleet) (tasks : List Task) : Memory := ⟨tasks, some (Queue.binding f.config)⟩

def first (f : Fleet) (tasks : List Task) (clock : Instant) : Shared :=
  { store := f.storeOf tasks, clock := clock }

def ReachableFrom (f : Fleet) (tasks : List Task) (s : State) : Prop :=
  ∃ clock, Run f.rules { shared := f.first tasks clock } s

def Reachable (f : Fleet) (s : State) : Prop := f.ReachableFrom [] s

def stored (s : State) (id : TaskId) : Option Task := s.shared.store.get? id

end Fleet

end MailQueue

import MailQueue.Proofs.Fleet.Play

/-!
# Queues with settings of their own

Any number of queues over one store in memory, of which no two need have the same settings. Each job
goes by the rules of its own queue.

* `Fleet.ofQueue` is a fleet of one queue over and over, and `Medley.rules` takes the rules of a job
  from there;
* `Medley.Reachable`: what can be reached from an empty store, whichever queue it is bound to;
* `Medley.reachable_of_fleet`: what a fleet can reach is among it.
-/

namespace MailQueue

open Queue Interleaving

/-- A fleet of which each queue is this one. -/
def Fleet.ofQueue (q : Queue) : Fleet := ⟨q.config, fun _ => q, fun _ => rfl⟩

@[simp] lemma Fleet.config_ofQueue (q : Queue) : (ofQueue q).config = q.config := rfl

namespace Medley

open Fleet

/-- The rules of queues with settings of their own. -/
def rules (queue : Nat → Queue) : Rules Ask Ask.Answer Job Job.Result Shared where
  work j := j.duty.work (queue j.queue)
  starts s j x := (ofQueue (queue j.queue)).rules.starts s j x
  answers j q x a y := (ofQueue (queue j.queue)).rules.answers j q x a y
  moves x y := ∃ t, y = { x with clock := t }

def first (binding : Option Binding) (clock : Instant) : Shared :=
  { store := ⟨[], binding⟩, clock := clock }

def Reachable (queue : Nat → Queue) (s : State) : Prop :=
  ∃ binding clock, Run (rules queue) { shared := first binding clock } s

variable {f : Fleet} {s t : State}

/-- A queue of a fleet answers as it does by itself. -/
lemma answers_of_fleet {i : Nat} {x y : Shared} {q : Ask} {a : q.Answer}
    (h : f.Answers i x q a y) : (ofQueue (f.queue i)).Answers i x q a y := by
  cases h with
  | now => exact .now
  | freshId id hid => exact .freshId id hid
  | store c hc => exact .store c hc
  | fault c e => exact .fault c e
  | pick stored => exact .pick stored
  | send index message outcome => exact .send index message outcome
  | tell e => exact .tell e

lemma takesUp_of_fleet {i tick : Nat} {task : Task} (h : f.TakesUp s i tick task) :
    (ofQueue (f.queue i)).TakesUp s i tick task := by
  obtain ⟨now, due, hlist, htask, hroom⟩ := h
  refine ⟨now, due, hlist, htask, ?_⟩
  rwa [config_ofQueue, f.shared i]

lemma step_of_fleet (h : Step f.rules s t) : Step (rules f.queue) s t := by
  cases h with
  | move hm => exact .move (R := rules f.queue) hm
  | @start j x hs =>
    refine .start (R := rules f.queue) ⟨hs.1, ?_⟩
    obtain ⟨i, duty⟩ := j
    cases duty with
    | process tick task => exact takesUp_of_fleet hs.2
    | enqueue | cancel | list => trivial
  | answer asks ha => exact .answer (R := rules f.queue) asks (answers_of_fleet ha)

/-- What a fleet can reach is reached by its queues with settings of their own. -/
theorem reachable_of_fleet (h : f.Reachable s) : Reachable f.queue s := by
  obtain ⟨clock, hr⟩ := h
  refine ⟨some (Queue.binding f.config), clock, ?_⟩
  exact Run.keeps (P := Run (rules f.queue) { shared := f.first [] clock }) .refl
    (fun _ ih step => ih.snoc (step_of_fleet step)) hr

end Medley

end MailQueue

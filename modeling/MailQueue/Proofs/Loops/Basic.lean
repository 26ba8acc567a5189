import MailQueue.Scheduler
import Mathlib.Data.List.Basic
import Mathlib.Logic.Function.Basic
import Mathlib.Logic.Relation

/-!
# Loops beside each other

A scheduler as its callers and its loops see it, when nothing is fixed about their order. Each loop
is a task of its own. It looks whether a shutdown was requested, and then waits for its timer and
for news of a shutdown, whichever it takes first; after a run of its handler, and after news, it
looks again.

* `Stage` is how far a loop has come, `Call` how far a call that shuts down and waits;
* `State` holds the scheduler with both, and a record of what happened;
* `Step` is one step of a caller, a timer, a handler or a loop, and `Reachable` what they can reach
  from a new scheduler;
* `Run.split`: each event was recorded by a step, from a state that was reached before.
-/

namespace MailQueue.Loops

/-- How far a loop has come. -/
inductive Stage where
  /-- It is about to look whether a shutdown was requested. -/
  | looking
  /-- It waits for its timer and for news of a shutdown. -/
  | waiting
  /-- Its handler runs. -/
  | running
  | ended
  deriving DecidableEq, Repr

/-- How far a call that shuts down and waits has come. -/
inductive Call where
  /-- The shutdown was requested. -/
  | entered
  /-- The call has taken the loops that were listed, and waits for them to end. -/
  | awaiting (loops : List Nat)
  | returned
  deriving DecidableEq, Repr

inductive Event where
  | registered (scope : String)
  | refused (scope : String) (cause : SchedulerError)
  | requested
  /-- The call of this number shuts down, and goes on to wait. -/
  | joining (call : Nat)
  | joined (call : Nat)
  | began (scope : String)
  | finished (scope : String)
  deriving DecidableEq, Repr

def Event.requests : Event → Bool
  | requested | joining _ => true
  | _ => false

/-- A scheduler with its loops and callers. -/
structure State where
  scheduler : Scheduler := {}
  /-- How far each loop has come, by its place. -/
  stage : Nat → Stage := fun _ => .ended
  /-- How often a shutdown was requested. -/
  requests : Nat := 0
  /-- How many of these requests each loop has heard of. -/
  heard : Nat → Nat := fun _ => 0
  /-- The calls that shut down and wait. -/
  calls : List Call := []
  log : List Event := []

namespace State

variable (s : State)

def names : List String := s.scheduler.loops.map TickLoop.scope

/-- Whether each of them is listed. -/
def marks : List Bool := s.scheduler.loops.map TickLoop.registered

def listed : List Nat := (List.range s.marks.length).filter fun i => s.marks[i]? == some true

def setLoop (i : Nat) (l : TickLoop) : Scheduler :=
  { s.scheduler with loops := s.scheduler.loops.set i l }

/-- After a call that registers a loop. The new loop has heard of every request so far. -/
def register (interval : Nat) (scope : String) : State :=
  match s.scheduler.register true interval scope with
  | .ok scheduler =>
    { s with
      scheduler := scheduler
      stage := Function.update s.stage s.scheduler.loops.length .looking
      heard := Function.update s.heard s.scheduler.loops.length s.requests
      log := s.log ++ [.registered scope] }
  | .error e => { s with log := s.log ++ [.refused scope e] }

def request : State :=
  { s with
    scheduler := s.scheduler.requestShutdown
    requests := s.requests + 1
    log := s.log ++ [.requested] }

/-- After the first part of a call that shuts down and waits. -/
def enter : State :=
  { s with
    scheduler := s.scheduler.requestShutdown
    requests := s.requests + 1
    calls := s.calls ++ [.entered]
    log := s.log ++ [.joining s.calls.length] }

/-- After the call of this number has taken all listed loops. -/
def drain (c : Nat) : State :=
  { s with
    scheduler := s.scheduler.shutdown
    calls := s.calls.set c (.awaiting s.listed) }

def leave (c : Nat) : State :=
  { s with calls := s.calls.set c .returned, log := s.log ++ [.joined c] }

def look (i : Nat) : State :=
  { s with
    stage := Function.update s.stage i (if s.scheduler.shuttingDown then .ended else .waiting) }

def hear (i : Nat) : State :=
  { s with
    stage := Function.update s.stage i .looking
    heard := Function.update s.heard i s.requests }

def begin (i : Nat) (l : TickLoop) (time : Nat) : State :=
  { s with
    scheduler := s.setLoop i (l.fire time 0 false)
    stage := Function.update s.stage i .running
    log := s.log ++ [.began l.scope] }

def finish (i : Nat) (l : TickLoop) (busy : Nat) : State :=
  { s with
    scheduler := s.setLoop i { l with freeAt := l.freeAt + busy }
    stage := Function.update s.stage i .looking
    log := s.log ++ [.finished l.scope] }

end State

inductive Step (s : State) : State → Prop where
  | register (interval : Nat) (scope : String) : Step s (s.register interval scope)
  | request : Step s s.request
  | enter : Step s s.enter
  | drain {c : Nat} (h : s.calls[c]? = some .entered) : Step s (s.drain c)
  /-- A call returns when all loops that it has taken have ended. -/
  | leave {c : Nat} {loops : List Nat} (h : s.calls[c]? = some (.awaiting loops))
      (he : ∀ i ∈ loops, s.stage i = .ended) : Step s (s.leave c)
  | look {i : Nat} (h : s.stage i = .looking) : Step s (s.look i)
  | hear {i : Nat} (h : s.stage i = .waiting) (hn : s.heard i ≠ s.requests) : Step s (s.hear i)
  | begin {i : Nat} {l : TickLoop} (hl : s.scheduler.loops[i]? = some l)
      (h : s.stage i = .waiting) (time : Nat) : Step s (s.begin i l time)
  | finish {i : Nat} {l : TickLoop} (hl : s.scheduler.loops[i]? = some l)
      (h : s.stage i = .running) (busy : Nat) : Step s (s.finish i l busy)

abbrev Run : State → State → Prop := Relation.ReflTransGen Step

def Reachable (s : State) : Prop := Run {} s

variable {s t u : State}

lemma Step.log (h : Step s t) : ∃ o : Option Event, t.log = s.log ++ o.toList := by
  cases h with
  | register interval scope =>
    unfold State.register
    split <;> exact ⟨some _, rfl⟩
  | request | enter | leave | begin | finish => exact ⟨some _, rfl⟩
  | drain | look | hear => exact ⟨none, (List.append_nil _).symm⟩

lemma Run.log (h : Run s t) : s.log <+: t.log := by
  induction h with
  | refl => exact List.prefix_rfl
  | tail _ step ih =>
    obtain ⟨o, ho⟩ := step.log
    rw [ho]
    exact ih.trans (List.prefix_append _ _)

/-- **Each event was recorded by a step.** -/
theorem Run.split {e : Event} {pre post : List Event} (h : Run s t) (hs : s.log = [])
    (ht : t.log = pre ++ e :: post) :
    ∃ u v, Run s u ∧ u.log = pre ∧ Step u v ∧ v.log = pre ++ [e] ∧ Run v t := by
  induction h generalizing post with
  | refl =>
    rw [hs] at ht
    simp at ht
  | @tail t t' hrun step ih =>
    obtain ⟨o, ho⟩ := step.log
    rcases o with _ | d
    · have hlog : t.log = pre ++ e :: post := by
        rw [← ht, ho, Option.toList_none, List.append_nil]
      obtain ⟨u, v, hu, hpre, huv, hv, hvt⟩ := ih hlog
      exact ⟨u, v, hu, hpre, huv, hv, hvt.tail step⟩
    · rw [Option.toList_some] at ho
      rcases List.eq_nil_or_concat post with rfl | ⟨post, d', rfl⟩
      · -- the event is the last one
        rw [ht] at ho
        obtain ⟨hpre, he⟩ := List.append_inj' ho rfl
        exact ⟨t, t', hrun, hpre.symm, step, ht, .refl⟩
      · rw [ht, List.concat_eq_append, ← List.cons_append, ← List.append_assoc] at ho
        obtain ⟨hlog, -⟩ := List.append_inj' ho rfl
        obtain ⟨u, v, hu, hpre, huv, hv, hvt⟩ := ih hlog.symm
        exact ⟨u, v, hu, hpre, huv, hv, hvt.tail step⟩

end MailQueue.Loops

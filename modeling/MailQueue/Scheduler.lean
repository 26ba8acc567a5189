import MailQueue.Health
import MailQueue.Queue.Basic

/-!
# The scheduler of one process

One loop per scope runs its handler at intervals, each run after the end of the one before. Time is
counted in nanoseconds and passes only in `TickLoop.pass`; that timers go off a little late is left
out.

* `Scheduler.register` refuses a zero interval, a scheduler that shuts down, a process that cannot
  drive loops, and a scope that has a loop already, in this order;
* `TickLoop.fire` is one run: a run that begins late by more than `tolerance` shifts those after it;
* `TickLoop.pass` lets time pass for several loops.
-/

namespace MailQueue

/-- A loop that runs a handler at intervals. -/
structure TickLoop where
  scope : String
  interval : Nat
  /-- When the next run is to begin; none before time has passed for the first time. -/
  nextAt : Option Nat := none
  /-- When the run under way ends. -/
  freeAt : Nat := 0
  /-- How often the handler has run. -/
  runs : Nat := 0
  /-- The handler crashed, and the loop with it. -/
  crashed : Bool := false
  /-- No further run begins. -/
  stopped : Bool := false
  /-- The scope is taken. -/
  registered : Bool := true
  deriving DecidableEq, Repr

namespace TickLoop

/-- How late a run may begin without shifting those after it: five milliseconds. -/
def tolerance : Nat := 5000000

/-- When the next run begins, if one does, the time being `now`. -/
def readyAt (l : TickLoop) (now : Nat) : Option Nat :=
  if l.crashed || l.stopped then none
  else some (max (l.nextAt.getD now) l.freeAt)

/-- The loop after a run at `time` that takes `busy` nanoseconds. -/
def fire (l : TickLoop) (time busy : Nat) (crashed : Bool) : TickLoop :=
  let due := l.nextAt.getD time
  { l with
    runs := l.runs + 1
    nextAt := some (if due + tolerance < time then time + l.interval else due + l.interval)
    freeAt := time + busy
    crashed := crashed }

/-- The place of the loop that runs next, the first of several at the same time, and when. -/
def earliest (now : Nat) : List TickLoop → Option (Nat × Nat)
  | [] => none
  | l :: rest =>
    let later := (earliest now rest).map fun best => (best.1 + 1, best.2)
    match l.readyAt now, later with
    | none, best => best
    | some t, none => some (0, t)
    | some t, some (i, t') => if t ≤ t' then some (0, t) else some (i, t')

/-- Lets time pass from `now` up to but not including `stop`: runs handlers as they fall due, at
most `fuel` times. A handler tells how long it takes and whether it crashes. -/
def pass {σ : Type} (run : TickLoop → σ → (Nat × Bool) × σ) (now stop : Nat) :
    Nat → List TickLoop → σ → List TickLoop × σ
  | 0, loops, s => (loops, s)
  | fuel + 1, loops, s =>
    match earliest now loops with
    | none => (loops, s)
    | some (i, t) =>
      if stop ≤ t then (loops, s)
      else match loops[i]? with
        | none => (loops, s)
        | some l =>
          let ((busy, crashed), s) := run l s
          pass run now stop fuel (loops.set i (l.fire t busy crashed)) s

/-- A bound on the runs that begin before `stop`. -/
def maxRuns (stop : Nat) (loops : List TickLoop) : Nat := loops.length * (stop + 1)

end TickLoop

structure Scheduler where
  loops : List TickLoop := []
  shuttingDown : Bool := false
  deriving DecidableEq, Repr

namespace Scheduler

/-- The scopes that have a loop, in order. -/
def scopes (s : Scheduler) : List String :=
  ((s.loops.filter TickLoop.registered).map TickLoop.scope).mergeSort fun a b => a ≤ b

/-- Why a loop would be refused. -/
def refusal? (s : Scheduler) (canDrive : Bool) (interval : Nat) (scope : String) :
    Option SchedulerError :=
  if interval = 0 then some .zeroInterval
  else if s.shuttingDown then some .shuttingDown
  else if !canDrive then some .noRuntime
  else if s.scopes.contains scope then some (.alreadyRegistered scope)
  else none

def register (s : Scheduler) (canDrive : Bool) (interval : Nat) (scope : String) :
    Except SchedulerError Scheduler :=
  match s.refusal? canDrive interval scope with
  | some e => .error e
  | none => .ok { s with loops := s.loops ++ [{ scope := scope, interval := interval }] }

/-- No further run begins; one under way goes on to its end. -/
def requestShutdown (s : Scheduler) : Scheduler :=
  { loops := s.loops.map fun l => { l with stopped := true }, shuttingDown := true }

/-- As `requestShutdown`, and waits for the runs under way. All scopes are free after it. -/
def shutdown (s : Scheduler) : Scheduler :=
  { loops := s.loops.map fun l => { l with stopped := true, registered := false }
    shuttingDown := true }

/-- The report of a scheduler: of no use once it shuts down, broken if a loop has crashed. -/
def health (s : Scheduler) : HealthReport :=
  if s.shuttingDown then .unavailable "scheduler is shut down"
  else
    match (s.loops.filter fun l => l.crashed && l.registered).map TickLoop.scope with
    | [] => .ok
    | stopped => .error ("tick loop stopped for: " ++ String.intercalate ", " stopped)

def debug (s : Scheduler) : String :=
  Text.record "LocalScheduler" [
    ("namespaces", Text.quotedList s.scopes),
    ("shutting_down", if s.shuttingDown then "true" else "false")]

theorem register_eq_ok_iff {s s' : Scheduler} {canDrive : Bool} {interval : Nat}
    {scope : String} :
    s.register canDrive interval scope = .ok s' ↔
      s.refusal? canDrive interval scope = none ∧
        s' = { s with loops := s.loops ++ [{ scope := scope, interval := interval }] } := by
  unfold register
  cases s.refusal? canDrive interval scope <;> simp [eq_comm]

end Scheduler

end MailQueue

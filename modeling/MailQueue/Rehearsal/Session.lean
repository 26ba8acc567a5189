import MailQueue.Rehearsal.World
import MailQueue.Scheduler

/-!
# Rehearsals

A queue in its world, with schedulers whose time passes only by `Session.sleep`.

* `Session.start` registers the queue's tick with a scheduler; the first one that takes it is the
  one that the queue's health reports;
* `Session.sleep` lets time pass for the schedulers, the clock of the world standing still.
-/

namespace MailQueue.Rehearsal

/-- A rehearsal under way. -/
structure Session where
  queue : Option Queue
  world : World
  /-- The scheduler at hand. -/
  scheduler : Scheduler := {}
  /-- A second scheduler, if the queue keeps one. -/
  second : Option Scheduler := none
  /-- Whether the queue was started first with the scheduler at hand, once it was started. -/
  firstAtHand : Option Bool := none
  /-- The time of the schedulers, in nanoseconds. -/
  time : Nat := 0

namespace Session

/-- A session of a queue, if there is one; the store learns of the queue. -/
def new (queue : Option Queue) (world : World) : Session where
  queue := queue
  world := match queue with
    | some q =>
      { world with pool := q.pool, backing := world.backing.bind (Queue.binding q.config) }
    | none => world

/-- Registers the tick with the scheduler at hand, or with a fresh one. A fresh one is gone at once
unless it is the first. A queue that only takes mail in registers nothing. -/
def start (s : Session) (q : Queue) (atHand : Bool) : Except SchedulerError Session := do
  if !q.config.mode.isConsumer then return s
  let scheduler := if atHand then s.scheduler else {}
  let scheduler ←
    scheduler.register true (q.config.tickIntervalMs.toNat * nsPerMs) q.config.scope
  let first := s.firstAtHand.isNone
  let s := { s with firstAtHand := s.firstAtHand.or (some atHand) }
  if atHand then return { s with scheduler := scheduler }
  else if first then return { s with second := some scheduler }
  else return s

/-- The schedulers' loops run the tick; it takes no time of theirs. -/
def sleep (s : Session) (ms : Nat) : Session :=
  let loops := s.scheduler.loops ++ (s.second.map Scheduler.loops).getD []
  let stop := s.time + ms * nsPerMs
  let run := fun (_ : TickLoop) (world : World) =>
    ((0, false), match s.queue with
      | some q => (world.tick q).2
      | none => world)
  let (loops, world) := TickLoop.pass run s.time stop (TickLoop.maxRuns stop loops) loops s.world
  let count := s.scheduler.loops.length
  { s with
    world := world
    time := stop
    scheduler := { s.scheduler with loops := loops.take count }
    second := s.second.map fun t => { t with loops := loops.drop count } }

/-- Stops the scheduler at hand. -/
def shutdown (s : Session) : Session := { s with scheduler := s.scheduler.shutdown }

/-- The health of the store, and of the scheduler that the queue was started with first. -/
def health (s : Session) : QueueHealth × Session :=
  let (store, backing) := s.world.backing.health s.world.clock
  let scheduler := s.firstAtHand.map fun atHand =>
    (if atHand then s.scheduler else s.second.getD {}).health
  (⟨store, scheduler⟩, { s with world := { s.world with backing := backing } })

end Session

end MailQueue.Rehearsal

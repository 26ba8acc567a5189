import MailQueue.Crew
import MailQueue.Queue.Dispatch
import MailQueue.Queue.Enqueue
import MailQueue.Rehearsal.Backing
import MailQueue.Rehearsal.StandIn

/-!
# The world of a rehearsal

Everything that a queue asks of its surroundings, as one value: a clock that stands still,
identifiers in order, a store with its planned faults, stand-ins for transports, and listeners.

* `Errand` lists the questions at the grain of one command of the server;
* `Access.refine` turns a question of a queue into errands, the fault planned for a call included;
* `World.answer` runs an errand;
* `World.perform` runs work on its own, `World.tick` the tick of a queue with its concurrency.
-/

namespace MailQueue.Rehearsal

/-- Which events the listeners hear. -/
structure Hooks where
  sent : Bool := true
  failed : Bool := true
  deriving DecidableEq, Repr

/-- How a diagnostic shows the listeners. -/
def Hooks.debug (h : Hooks) : String :=
  Text.record "CallbackSink" [
    ("sent", if h.sent then "true" else "false"), ("error", if h.failed then "true" else "false")]

/-- Whether the listeners hear an event. -/
def Hooks.hears (h : Hooks) : Event → Bool
  | .sent _ _ => h.sent
  | .failed _ _ _ => h.failed

/-! ### Errands -/

/-- What is asked of a world. -/
inductive Errand where
  | now
  | freshId
  | pick (stored : Nat)
  | send (index : Nat) (message : Mail)
  | tell (event : Event)
  /-- The fault planned for a call. -/
  | fault (call : Store.Call)
  /-- A call of the store in memory. -/
  | inMemory (call : Store.Call)
  /-- A further mail for a task in memory. -/
  | append (id : TaskId) (mail : Mail)
  /-- A command for the server. -/
  | command (c : KeyValue.Command)

@[reducible] def Errand.Answer : Errand → Type
  | now => Instant
  | freshId => TaskId
  | pick _ => Nat
  | send _ _ => SendOutcome
  | tell _ => Unit
  | fault _ => Fault
  | inMemory call => call.Answer
  | append _ _ => Unit
  | command c => c.Answer

/-- Only the server lets one wait. -/
def Errand.waits : Errand → Bool
  | command _ => true
  | _ => false

abbrev Work := Program Errand Errand.Answer

def ask (e : Errand) : Work e.Answer := Program.question e

/-- How a store is reached. -/
inductive Access where
  | memory
  | keyValue (client : KeyValue.Client)

namespace Access

/-- A call of the store itself. -/
def reach (access : Access) (call : Store.Call) : Work call.Answer :=
  match access with
  | memory => ask (.inMemory call)
  | keyValue client => (client.answer call).expand fun c => ask (.command c)

/-- A write of another worker to a task. On a server no mail joins a task this way. -/
def interfere (access : Access) (id : TaskId) : Interference → Work Unit
  | .delete => do let _ ← access.reach (.delete id)
  | .patch p => do let _ ← access.reach (.mutate id p)
  | .append mail =>
    match access with
    | memory => ask (.append id mail)
    | keyValue _ => return ()

/-- The task that a call is about. -/
def subject? : Store.Call → Option TaskId
  | .insert task => some task.id
  | .mutate id _ | .delete id | .cancel id => some id
  | .due _ | .look _ _ | .find _ _ => none

/-- A copy of a task after the changes that make it stale. -/
def copy (stale : Option Patch) (t : Task) : Task :=
  match stale with
  | some p => p.apply t
  | none => t

/-- An entry of due tasks after the changes that make its task stale, if it is at hand. -/
def staleDue (stale : Option Patch) : Store.Due → Store.Due
  | .task t => .task (copy stale t)
  | d => d

/-- A call under a fault, unless it fails. -/
def under (access : Access) (fault : Fault) : (call : Store.Call) → Work call.Answer
  | .due now => do
    match ← access.reach (.due now) with
    | .error e => return .error e
    | .ok due =>
      return .ok (due.map (staleDue fault.stale) ++
        List.replicate fault.unreadable (.unreadable (.other "unreadable")))
  | .look key now => do
    match ← access.reach (.look key now) with
    | .error e => return .error e
    | .ok found => return .ok (found.map (copy fault.stale))
  | .mutate id p =>
    match fault.result with
    | some b => return .ok b
    | none => access.reach (.mutate id p)
  | call => access.reach call

/-- A call of the store, after the fault planned for it. -/
def call (access : Access) (c : Store.Call) : Work c.Answer := do
  let fault ← ask (.fault c)
  match subject? c with
  | some id => fault.before.forM (access.interfere id)
  | none => pure ()
  match fault.error with
  | some cause => return Store.Call.failed (.other cause) c
  | none => access.under fault c

/-- The entries of due tasks as the tasks themselves; an unreadable one is kept. -/
def resolve (access : Access) (now : Instant) :
    List Store.Due → Work (List (Except StoreError Task))
  | [] => return []
  | .task t :: rest => return .ok t :: (← access.resolve now rest)
  | .unreadable e :: rest => return .error e :: (← access.resolve now rest)
  | .mark key :: rest => do
    match ← access.call (.look key now) with
    | .ok (some t) => return .ok t :: (← access.resolve now rest)
    | .ok none => access.resolve now rest
    | .error e => return .error e :: (← access.resolve now rest)

/-- The due tasks at hand, in the order of the store; an unreadable one fails the whole. -/
def dueTasks (access : Access) (now : Instant) : Work (Except StoreError (List Task)) := do
  match ← access.call (.due now) with
  | .error e => return .error e
  | .ok due => return (← access.resolve now due).mapM id

/-- A question of a queue as errands. -/
def refine (access : Access) : (q : Queue.Ask) → Work q.Answer
  | .now => ask .now
  | .freshId => ask .freshId
  | .store c => access.call c
  | .pick stored => ask (.pick stored)
  | .send index message => ask (.send index message)
  | .tell e => ask (.tell e)

/-- Finds the work on a due task, as errands. -/
def scout (access : Access) (q : Queue) (now : Instant) (due : Store.Due) :
    Scouting Errand Errand.Answer TaskOutcome :=
  ((q.scout now due).expand access.refine).bind fun job =>
    .done (job.map (Program.expand access.refine))

end Access

/-! ### The world -/

/-- The surroundings of a queue. -/
structure World where
  clock : Instant
  /-- The identifiers handed out first. -/
  ids : List TaskId := []
  /-- How many were handed out after those; they are numbered from one. -/
  counted : Nat := 0
  /-- The queue's transports; without a queue there are none. -/
  pool : TransportPool := .new [] .backup 1
  /-- The transport whose turn it was last. -/
  cursor : Nat := 0
  standIns : List StandIn := []
  plan : FaultPlan := {}
  backing : Backing
  hooks : Hooks := {}
  /-- What the listeners heard since the last look, in order. -/
  heard : List Event := []

namespace World

def access (w : World) : Access :=
  match w.backing with
  | .memory _ => .memory
  | .keyValue client _ => .keyValue client

def freshId (w : World) : TaskId × World :=
  match w.ids with
  | id :: rest => (id, { w with ids := rest })
  | [] => (.ofNat (w.counted + 1), { w with counted := w.counted + 1 })

/-- Hands a message to the stand-in of an index. -/
def send (w : World) (index : Nat) (message : Mail) : SendOutcome × World :=
  match w.standIns[index]? with
  | some s =>
    let (outcome, s) := s.send message
    (outcome, { w with standIns := w.standIns.set index s })
  | none => (.crash "", w)

/-- Runs an errand. What a world does not have fails or does nothing. -/
def answer : (e : Errand) → World → e.Answer × World
  | .now, w => (w.clock, w)
  | .freshId, w => w.freshId
  | .pick stored, w =>
    let (index, cursor) := w.pool.select w.cursor stored
    (index, { w with cursor := cursor })
  | .send index message, w => w.send index message
  | .tell e, w => ((), if w.hooks.hears e then { w with heard := w.heard ++ [e] } else w)
  | .fault call, w =>
    let (fault, plan) := w.plan.take call
    (fault, { w with plan := plan })
  | .inMemory call, w =>
    let (a, backing) := w.backing.inMemory call
    (a, { w with backing := backing })
  | .append id mail, w => ((), { w with backing := w.backing.append id mail })
  | .command c, w =>
    let (a, backing) := w.backing.command w.clock c
    (a, { w with backing := backing })

def perform {α : Type} (w : World) (work : Work α) : α × World := work.run answer w

def performQueue {α : Type} (w : World) (work : Queue.Work α) : α × World :=
  w.perform (work.expand w.access.refine)

def call (w : World) (c : Store.Call) : c.Answer × World := w.perform (w.access.call c)

/-- A bound on the rounds of a tick. -/
def maxRounds : Nat := UInt64.size

/-- The tick of a queue, so many tasks at a time as its settings allow. -/
def tick (w : World) (q : Queue) : TickReport × World :=
  match w.performQueue q.dueNow with
  | (none, w) => ({}, w)
  | (some (now, due), w) =>
    let (outcomes, w) := Crew.run Errand.waits answer (w.access.scout q now)
      (max q.config.tickConcurrency 1) maxRounds { entries := due } w
    (outcomes.foldl TickReport.absorb {}, w)

/-- What was heard since the last look. -/
def takeHeard (w : World) : List Event × World := (w.heard, { w with heard := [] })

/-- What was sent since the last look: the index of the transport with each message, by transport
and then by time. -/
def takeMessages (w : World) : List (Nat × Mail) × World :=
  ((w.standIns.mapIdx fun i s => s.messages.map fun m => (i, m)).flatten,
    { w with standIns := w.standIns.map fun s => { s with messages := [] } })

/-- Sets the clock forward or back; none if the calendar ends. -/
def advance? (w : World) (ms : Int) : Option World :=
  (w.clock.add? (ms * 1000000)).map fun t => { w with clock := t }

/-- Changes the stand-in of an index; none if there is none. -/
def withStandIn? (w : World) (index : Nat) (f : StandIn → StandIn) : Option World :=
  w.standIns[index]?.map fun s => { w with standIns := w.standIns.set index (f s) }

/-- Changes the server of the store; none if it has none. -/
def withServer? (w : World) (f : KeyValue.Server → KeyValue.Server) : Option World :=
  match w.backing with
  | .keyValue c s => some { w with backing := .keyValue c (f s) }
  | .memory _ => none

end World

end MailQueue.Rehearsal

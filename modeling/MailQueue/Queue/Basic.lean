import MailQueue.Compile
import MailQueue.Program
import MailQueue.Retry
import MailQueue.Store.Call
import MailQueue.TransportPool

/-!
# Queues

A queue is its settings and what follows from them. Its work is written as programs that ask for
the time, for fresh identifiers, for a transport's turn, and for what stores and transports do.

* `Queue.build` checks the settings and wires the parts;
* `Queue.Ask` lists the questions of a queue;
* `DeliveryError`, `QueueError` and `EnqueueError` are what can go wrong.
-/

namespace MailQueue

/-- Why an attempt to deliver failed. -/
inductive DeliveryError where
  | transport (index : Nat) (cause : TransportError)
  /-- No address was accepted. -/
  | notAccepted
  | noTransport (index : Nat)
  | compile (cause : ReadError)
  /-- The transport crashed. -/
  | crashed (message : String)

def DeliveryError.message : DeliveryError → String
  | transport index cause =>
    "transport #" ++ String.ofList (Number.natDigits index) ++ " failed: " ++ cause.message
  | notAccepted => "Message not accepted or Greeting never received"
  | noTransport index =>
    "transport #" ++ String.ofList (Number.natDigits index) ++
      " not available or misconfiguration is in place"
  | compile cause => "failed to compile message: " ++ cause.message
  | crashed message => "dispatch panicked: " ++ message

/-- Why a scheduler refused a job. -/
inductive SchedulerError where
  | alreadyRegistered (scope : String)
  | zeroInterval
  | shuttingDown
  /-- There is nothing that could drive the interval. -/
  | noRuntime
  deriving DecidableEq, Repr

def SchedulerError.message : SchedulerError → String
  | alreadyRegistered scope =>
    "a periodic job is already registered for namespace `" ++ scope ++ "`"
  | zeroInterval => "interval must be greater than zero"
  | shuttingDown => "scheduler is shutting down"
  | noRuntime => "no Tokio runtime available to drive the interval"

/-- Why a queue refused a request. -/
inductive QueueError where
  | missingBody
  | invalidRecipient
  | config (cause : ConfigError)
  | storage (cause : StoreError)
  | scheduler (cause : SchedulerError)
  deriving DecidableEq, Repr

def QueueError.message : QueueError → Option String
  | missingBody =>
    some "`html` nor `text` field is presented, at least one of those fields is required"
  | invalidRecipient =>
    some "`to` is required and must be a non-empty address or a non-empty list of addresses"
  | config cause => match cause with
    | .unreadable => none
    | cause => some cause.message
  | storage cause => cause.message
  | scheduler cause => some cause.message

/-- How a request can fail to be queued. -/
inductive EnqueueError where
  | refused (cause : QueueError)
  /-- The end of the window for merging lies outside the calendar; the call does not return. -/
  | outsideCalendar
  deriving DecidableEq, Repr

/-- What becomes of a task after a failed attempt. -/
inductive Resolution where
  | rescheduled (retryAt : Instant) (transport : Nat)
  | gaveUp
  deriving DecidableEq, Repr

/-- What a queue tells its listeners. -/
inductive Event where
  | sent (task : Task) (report : SendReport)
  | failed (task : Task) (error : DeliveryError) (resolution : Resolution)

structure Queue where
  config : Config
  pool : TransportPool
  compiler : Compiler
  retry : RetryPolicy

namespace Queue

/-- What the work of a queue asks its surroundings. -/
inductive Ask where
  /-- The time. -/
  | now
  /-- An identifier that is not in use. -/
  | freshId
  /-- A call of the store. -/
  | store (call : Store.Call)
  /-- The transport for an attempt of a task that names one. -/
  | pick (stored : Nat)
  /-- A transport to send a message. -/
  | send (index : Nat) (message : Mail)
  /-- A listener to take note. -/
  | tell (event : Event)

@[reducible] def Ask.Answer : Ask → Type
  | now => Instant
  | freshId => TaskId
  | store call => call.Answer
  | pick _ => Nat
  | send _ _ => SendOutcome
  | tell _ => Unit

abbrev Work := Program Ask Ask.Answer

def askNow : Work Instant := Program.question Ask.now

def askFreshId : Work TaskId := Program.question Ask.freshId

def call (c : Store.Call) : Work c.Answer := Program.question (Ask.store c)

def pick (stored : Nat) : Work Nat := Program.question (Ask.pick stored)

def send (index : Nat) (message : Mail) : Work SendOutcome :=
  Program.question (Ask.send index message)

def tell (e : Event) : Work Unit := Program.question (Ask.tell e)

/-- What the store is told of the queue. -/
def binding (c : Config) : Binding := ⟨c.maxAttempts, c.keepHistory, c.concat.enabled⟩

/-- Why the parts make no queue: a setting out of range, then the lack of a store, then the lack of
a transport where the process sends. -/
def buildFault? (config : Config) (hasStore : Bool) (transports : List Transport) :
    Option ConfigError :=
  match config.fault? with
  | some e => some e
  | none =>
    if !hasStore then some .noStore
    else if config.mode.isConsumer && transports.isEmpty then some .noTransport
    else none

/-- The queue of these parts. A resolver goes before the sender of the settings. -/
def wire (config : Config) (transports : List Transport)
    (resolve : Option (Transport → Option String)) : Queue where
  config := config
  pool := .new transports config.strategy config.failsToNext
  compiler :=
    { template := config.template
      delimiter := config.concat.delimiter
      concatSubject := config.concat.subject
      resolve := resolve.or (config.sender.map fun sender _ => some sender) }
  retry := ⟨config.retryDelayMs.toNat * nsPerMs, config.backoff⟩

/-- Makes a queue. -/
def build (config : Config) (hasStore : Bool) (transports : List Transport)
    (resolve : Option (Transport → Option String)) : Except ConfigError Queue :=
  match buildFault? config hasStore transports with
  | some e => .error e
  | none => .ok (wire config transports resolve)

theorem wire_of_build {config : Config} {hasStore : Bool} {transports : List Transport}
    {resolve : Option (Transport → Option String)} {q : Queue}
    (h : build config hasStore transports resolve = .ok q) :
    config.fault? = none ∧ q = wire config transports resolve := by
  unfold build buildFault? at h
  split at h
  · cases h
  · next hn =>
    split at hn
    · cases hn
    · next hf => exact ⟨hf, (Except.ok.inj h).symm⟩

/-- How a diagnostic shows a queue over a store of this name. -/
def debug (q : Queue) (storeName : String) : String :=
  Text.record "MailTime" [
    ("prefix", Text.quoted q.config.scope), ("store", Text.quoted storeName),
    ("transports", q.pool.debug)]

end Queue

end MailQueue

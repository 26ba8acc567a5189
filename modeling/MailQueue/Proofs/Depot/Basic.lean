import MailQueue.Proofs.Fleet.Basic
import MailQueue.Proofs.Mirror.Server

/-!
# Queues that share a server

Any number of queues with the same settings over one scope of a key-value server. One step is one
command of one job: a script is one command, and so is a transaction. Requests are taken in, tasks
cancelled, due tasks listed, and the entries of such a list worked on, all side by side.

* `Depot.Ask` are the questions of a queue with each call of the store drawn out into its commands
  and its return, and `Depot.refine` does the drawing out;
* `Depot.rules` are the rules by which jobs start and questions are answered;
* `Holds` says that a job has claimed a task and not yet resolved it, at the grain of commands;
* `LeftAlone` is what all of this comes to for the tasks that are held.
-/

namespace MailQueue

open Interleaving KeyValue

/-- Queues with the same settings over one scope of a server. -/
structure Depot extends Fleet where
  keys : Keys

namespace Depot

def client (d : Depot) : Client := ⟨d.keys, some (Queue.binding d.config)⟩

/-! ### Questions -/

/-- What the work of a queue asks of its surroundings and of the server. -/
inductive Ask where
  /-- A question of the queue that is no call of the store. -/
  | own (q : Queue.Ask)
  /-- A command on behalf of a call of the store. -/
  | command (call : Store.Call) (c : Command)
  /-- The call returns. -/
  | returned (call : Store.Call) (answer : call.Answer)

@[reducible] def Ask.Answer : Ask → Type
  | own q => q.Answer
  | command _ c => c.Answer
  | returned _ _ => Unit

/-- Work at the grain of commands. -/
abbrev Work := Program Ask Ask.Answer

/-- A question with its answer. -/
abbrev Exchange := MailQueue.Exchange Ask Ask.Answer

/-- What is left of a call, up to its return. -/
def serve (call : Store.Call) (rest : KeyValue.Work call.Answer) : Work call.Answer :=
  (rest.expand fun c => Program.question (Ask.command call c)).bind fun a =>
    .ask (.returned call a) fun _ => .done a

/-- A question of a queue at the grain of commands. -/
def refine (d : Depot) : (q : Queue.Ask) → Work q.Answer
  | .store call => serve call (d.client.answer call)
  | q => Program.question (Ask.own q)

/-! ### Jobs -/

/-- What a job is about. -/
inductive Duty where
  | enqueue (request : Request)
  | cancel (id : TaskId)
  /-- The first part of a tick: the time and the entries listed then. -/
  | list
  /-- The work on an entry that the tick of this number has listed at this time. -/
  | entry (tick : Nat) (now : Instant) (due : Store.Due)

structure Job where
  queue : Nat
  duty : Duty

@[reducible] def Duty.Result : Duty → Type
  | enqueue _ => Except EnqueueError TaskId
  | cancel _ => Bool
  | list => Option (Instant × List Store.Due)
  | entry _ _ _ => Option TaskOutcome

@[reducible] def Job.Result (j : Job) : Type := j.duty.Result

/-- The work on an entry of a list: it is looked up, and if it is due, worked on. -/
def handle (q : Queue) (now : Instant) (due : Store.Due) : Queue.Work (Option TaskOutcome) := do
  match ← q.scout now due with
  | none => return none
  | some work => return some (← work)

def Duty.work (q : Queue) : (d : Duty) → Queue.Work d.Result
  | enqueue request => q.enqueue request
  | cancel id => Queue.cancel id
  | list => q.dueNow
  | entry _ now due => handle q now due

def Job.work (d : Depot) (j : Job) : Queue.Work j.Result := j.duty.work (d.queue j.queue)

/-- What the queues share, and what each of them keeps. -/
structure Shared where
  server : Server
  /-- The time of the server, in milliseconds. -/
  now : Int
  /-- The transport whose turn it was last, by queue. -/
  cursor : Nat → Nat := fun _ => 0
  /-- The identifiers in use: those of the letters, and those handed out. -/
  issued : List TaskId := []

abbrev State := Interleaving.State Ask Ask.Answer Job Job.Result Shared

abbrev Entry := Interleaving.Entry Ask Ask.Answer Job Shared

abbrev Thread := Interleaving.Thread Ask Ask.Answer Job Job.Result

/-- How a question may be answered, and what is shared afterwards. The clock of a queue may show any
time, and a listing may come in any pages. -/
inductive Answers (d : Depot) (i : Nat) (x : Shared) : (q : Ask) → q.Answer → Shared → Prop where
  | now (t : Instant) : Answers d i x (.own .now) t x
  | freshId (id : TaskId) (h : id ∉ x.issued) :
      Answers d i x (.own .freshId) id { x with issued := id :: x.issued }
  | pick (stored : Nat) :
      Answers d i x (.own (.pick stored)) ((d.queue i).pool.select (x.cursor i) stored).1
        { x with cursor :=
            Function.update x.cursor i ((d.queue i).pool.select (x.cursor i) stored).2 }
  | send (index : Nat) (message : Mail) (outcome : SendOutcome) :
      Answers d i x (.own (.send index message)) outcome x
  | tell (e : Event) : Answers d i x (.own (.tell e)) () x
  | scan (call : Store.Call) (cursor : Nat) (pattern : String) (count : Nat)
      (page : Nat × List String) :
      Answers d i x (.command call (.scan cursor pattern count)) (some page) x
  | command (call : Store.Call) (c : Command) :
      Answers d i x (.command call c) (x.server.answer x.now c).1
        { x with server := (x.server.answer x.now c).2 }
  | returned (call : Store.Call) (answer : call.Answer) :
      Answers d i x (.returned call answer) () x

/-- The rules of a depot: calls start at any time, and any entry that a tick has listed may be
worked on. -/
def rules (d : Depot) : Rules Ask Ask.Answer Job Job.Result Shared where
  work j := (j.work d).expand d.refine
  starts s j x := x = s.shared ∧ match j.duty with
    | .entry tick now due => ∃ entries, due ∈ entries ∧
        s.threads[tick]? = some ⟨⟨j.queue, .list⟩, .done (some (now, entries))⟩
    | _ => True
  answers j q x a y := d.Answers j.queue x q a y
  moves x y := ∃ now, y = { x with now := now }

/-- Nothing is planned to go wrong, no letter or mark expires, and identifiers of letters are in
use. So a run may begin, as with an empty server. -/
structure Opens (d : Depot) (x : Shared) : Prop where
  calm : x.server.Calm
  lasting : ∀ id, x.server.Lasting (d.keys.letter id) ∧ x.server.Lasting (d.keys.mark id)
  issued : ∀ id, (x.server.text? (d.keys.letter id)).isSome → id ∈ x.issued

/-! ### What the records tell -/

/-- The task that a call takes in hand. -/
def claimed? : Store.Call → Option TaskId
  | .mutate id p =>
    match p.guard with
    | some (.unclaimed _) => some id
    | _ => none
  | _ => none

/-- The task that a call puts back, gives up or removes. -/
def resolved? : Store.Call → Option TaskId
  | .mutate id p => if p.guard.isNone then some id else none
  | .delete id => some id
  | _ => none

/-- The task that a call stores anew. -/
def inserted? : Store.Call → Option TaskId
  | .insert task => some task.id
  | _ => none

/-- An answered command has written: a script that found the letter as expected, or a
transaction. -/
def wrote : (c : Command) → c.Answer → Bool
  | .run _ _ _ _ _ _, .applied n => decide (n = 1)
  | .transaction _, _ => true
  | _, _ => false

def keyOf : Write → String
  | .set key _ _ => key
  | .del key => key

/-- The keys that a command may write. -/
def keysOf : Command → List String
  | .run _ letterKey markKey _ _ _ => [letterKey, markKey]
  | .transaction writes => writes.map keyOf
  | _ => []

/-- The command was a write on behalf of a call of this kind for the task. -/
def writesFor (kind : Store.Call → Option TaskId) (id : TaskId) : Exchange → Bool
  | ⟨.command call c, a⟩ => kind call == some id && wrote c a
  | _ => false

/-- The answers show the script by which a claim of the task succeeded, and no write that resolves
it. -/
def Holds (id : TaskId) (l : List Exchange) : Prop :=
  (∃ x ∈ l, writesFor claimed? id x = true) ∧ ∀ x ∈ l, writesFor resolved? id x = false

/-- The exchanges of the queue's own work: what it asked, and what its calls returned. -/
def outline (l : List Exchange) : List Fleet.Exchange :=
  l.filterMap fun x => match x with
    | ⟨.own q, a⟩ => some ⟨q, a⟩
    | ⟨.returned call answer, _⟩ => some ⟨.store call, answer⟩
    | ⟨.command _ _, _⟩ => none

/-- The commands of the call that is under way. -/
def underWay (l : List Exchange) : List (MailQueue.Exchange Command Command.Answer) :=
  l.foldl (fun commands x => match x with
    | ⟨.command _ c, a⟩ => commands ++ [⟨c, a⟩]
    | _ => []) []

def reads : MailQueue.Exchange Command Command.Answer → Bool
  | ⟨.get _, _⟩ => true
  | _ => false

/-- Every letter that was read could be decoded. -/
def Decodable (d : Depot) (log : List Entry) : Prop :=
  ∀ e ∈ log, ∀ call id raw,
    e.exchange = ⟨.command call (.get (d.keys.letter id)), some (some raw)⟩ →
      (Task.ofLetter raw).isSome

/-- A record leaves a key as it is: nothing is written there. -/
def Spares (key : String) (e : Entry) : Prop :=
  ∀ call c a, e.exchange = ⟨.command call c, a⟩ →
    (key ∈ keysOf c → wrote c a = false) ∧
      (e.before.server.answer e.before.now c).2.get? e.before.now key =
        e.before.server.get? e.before.now key

/-- **A task that is held is left alone.** -/
structure LeftAlone (d : Depot) (s : State) : Prop where
  /-- At most one job holds a task. -/
  sole : ∀ id n m, Holds id (s.past n) → Holds id (s.past m) → n = m
  /-- As long as a job holds a task, nobody else writes its letter or its mark. -/
  spared : ∀ pre e post id n, s.log = pre ++ e :: post → Holds id (pastIn pre n) → e.thread ≠ n →
    Spares (d.keys.letter id) e ∧ Spares (d.keys.mark id) e
  /-- Whose claim returns with yes holds the task. -/
  claimed : ∀ pre e post id p answer, s.log = pre ++ e :: post →
    claimed? (.mutate id p) = some id → e.ask = .returned (.mutate id p) answer →
    answer = .ok true → Holds id (pastIn pre e.thread)
  /-- Who resolves a task holds it, and sends four commands for it at most. -/
  resolving : ∀ pre e post id call c, s.log = pre ++ e :: post → resolved? call = some id →
    e.ask = .command call c →
    Holds id (pastIn pre e.thread) ∧ (underWay (pastIn pre e.thread)).length < 4
  /-- The update that puts a task back or gives it up returns with yes, having read the letter once:
  it succeeds in its first round. -/
  updated : ∀ pre e post id p answer, s.log = pre ++ e :: post → p.guard = none →
    e.ask = .returned (.mutate id p) answer →
    answer = .ok true ∧ (underWay (pastIn pre e.thread)).countP reads = 1
  /-- The removal returns with yes. -/
  removed : ∀ pre e post id answer, s.log = pre ++ e :: post →
    e.ask = .returned (.delete id) answer → answer = .ok true

end Depot

end MailQueue

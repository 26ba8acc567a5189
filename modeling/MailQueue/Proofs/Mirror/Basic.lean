import MailQueue.Proofs.Interleaving
import MailQueue.Proofs.Letter
import MailQueue.Proofs.Mirror.Server
import MailQueue.Store.Memory
import Mathlib.Data.List.DropRight

/-!
# Calls of a store on a server

Any number of calls of one store, each running beside the others. One step is one command of one
call, and a script or a transaction is one command. The time of the server may change in between.

* `Mirror.Job` is a call that writes, and `Mirror.rules` are the rules by which calls start and
  commands are answered;
* `writes` tells the commands that write, and `replay` makes each call on a store in memory at the
  moment of its write;
* `Mirrors` says that a server holds the letters and marks of the tasks in memory, and `InStep`
  that nobody else interferes;
* `Refines` is what all of this comes to for calls that have ended.
-/

namespace MailQueue

open Interleaving KeyValue

/-- A store on a server, with the queue that uses it. -/
structure Mirror where
  keys : Keys
  binding : Binding

namespace Mirror

inductive Job where
  | insert (task : Task)
  | mutate (id : TaskId) (patch : Patch)
  | delete (id : TaskId)
  | cancel (id : TaskId)

namespace Job

def call : Job → Store.Call
  | insert task => .insert task
  | mutate id patch => .mutate id patch
  | delete id => .delete id
  | cancel id => .cancel id

def id : Job → TaskId
  | insert task => task.id
  | mutate id _ | delete id | cancel id => id

/-- The identifiers that the call brings up. -/
def issues : Job → List TaskId
  | insert task => [task.id]
  | _ => []

@[reducible] def Result (j : Job) : Type := j.call.Answer

/-- What a call says of itself: whether it has written. An insertion says so by not failing. -/
def said : (j : Job) → j.Result → Except StoreError Bool
  | insert _, r => (r : Except StoreError Unit).map fun _ => true
  | mutate _ _, r => r
  | delete _, r => r
  | cancel _, r => r

/-- What a call hands over is what letters are made for, and an inserted task is open. -/
def Plain : Job → Prop
  | insert task => task.isOpen = true ∧ task.Plain
  | mutate _ patch => patch.Plain
  | _ => True

/-- A letter gives back the mails that a call hands over. -/
def Durable : Job → Prop
  | insert task => task.Durable
  | mutate _ patch => patch.Durable
  | _ => True

end Job

structure Shared where
  server : Server
  /-- The time of the server, in milliseconds. -/
  now : Int
  /-- The identifiers that tasks were inserted under, or are going to be. -/
  issued : List TaskId

abbrev State := Interleaving.State Command Command.Answer Job Job.Result Shared

abbrev Entry := Interleaving.Entry Command Command.Answer Job Shared

def client (f : Mirror) : Client := ⟨f.keys, some f.binding⟩

/-- The rules for calls: a call with plain contents starts at any time, an insertion under an
identifier that is new. -/
def rules (f : Mirror) : Rules Command Command.Answer Job Job.Result Shared where
  work j := f.client.answer j.call
  starts s j x := j.Plain ∧ (∀ id ∈ j.issues, id ∉ s.shared.issued) ∧
    x = { s.shared with issued := j.issues ++ s.shared.issued }
  answers _ q x a y := a = (x.server.answer x.now q).1 ∧
    y = { x with server := (x.server.answer x.now q).2 }
  moves x y := ∃ now, y = { x with now := now }

/-! ### The store in memory beside it -/

/-- Whether an answered command has written: a script that found the letter as expected, the
transaction of an insertion, and that of a deletion if there was a letter. -/
def writes : Job → (q : Command) → q.Answer → Bool
  | .insert _, .transaction _, _ => true
  | .delete _, .transaction _, some (removed :: _) => decide (0 < removed)
  | _, .run _ _ _ _ _ _, .applied count => decide (count = 1)
  | _, _, _ => false

/-- Whether a record is one of a write. -/
def writesAt (e : Entry) : Bool := writes e.job e.ask e.answer

/-- The store in memory after the calls, each made at the moment of its write. -/
def replay (m : Memory) (log : List Entry) : Memory :=
  log.foldl (fun m e => if writesAt e then (m.answer e.job.call).2 else m) m

def writesOf (log : List Entry) (n : Nat) : Nat :=
  log.countP fun e => writesAt e && e.thread == n

def rivals (n : Nat) (id : TaskId) (log : List Entry) : Nat :=
  log.countP fun e => writesAt e && e.thread != n && e.job.id == id

def span (n : Nat) (log : List Entry) : List Entry :=
  (log.dropWhile fun e => e.thread != n).rdropWhile fun e => e.thread != n

/-- What stands under the mark of a task: the time of sending in milliseconds while it is open. -/
def mark? (t : Task) : Option String :=
  if t.isOpen then some (String.ofList (Number.intDigits t.sendAt.ms)) else none

/-- The server holds the letters and the marks of the tasks in memory, and no others. -/
structure Mirrors (f : Mirror) (x : Shared) (m : Memory) : Prop where
  letters : ∀ id, (x.server.get? x.now (f.keys.letter id)).map Task.ofLetter = (m.get? id).map some
  marks : ∀ id, x.server.get? x.now (f.keys.mark id) = (m.get? id).bind mark?

/-- Server and memory are in step: nobody but the calls uses the server, and what it holds are the
tasks in memory. So a run may begin, and so it goes on. -/
structure InStep (f : Mirror) (x : Shared) (m : Memory) : Prop where
  mirrors : f.Mirrors x m
  calm : x.server.Calm
  lasting : ∀ id, x.server.Lasting (f.keys.letter id) ∧ x.server.Lasting (f.keys.mark id)
  binding : m.binding = some f.binding
  plain : ∀ id t, m.get? id = some t → t.Plain ∧ t.Durable
  issued : ∀ id t, m.get? id = some t → id ∈ x.issued

/-- **A store on a server does what the store in memory does**, each call at the moment of its
write or, if it has not written, of its last look at the letter. -/
structure Refines (f : Mirror) (m : Memory) (s : State) : Prop where
  /-- The server holds what the store in memory holds. -/
  mirrors : f.Mirrors s.shared (replay m s.log)
  /-- At a write the call succeeds in memory too. -/
  applied : ∀ pre e post, s.log = pre ++ e :: post → writesAt e = true →
    e.job.said ((replay m pre).answer e.job.call).1 = .ok true
  /-- A call that says so has written once. -/
  wrote : ∀ n j r, s.threads[n]? = some ⟨j, .done r⟩ → j.said r = .ok true → writesOf s.log n = 1
  /-- A call that says no has not written, and would have said no in memory at its last look. -/
  refused : ∀ n j r, s.threads[n]? = some ⟨j, .done r⟩ → j.said r = .ok false →
    writesOf s.log n = 0 ∧ ∃ pre e post, s.log = pre ++ e :: post ∧ e.thread = n ∧
      (∀ e' ∈ post, e'.thread ≠ n) ∧
      (e.ask = .get (f.keys.letter j.id) ∨ j = .delete j.id ∧ ∃ ws, e.ask = .transaction ws) ∧
      j.said ((replay m pre).answer j.call).1 = .ok false
  /-- A call that gives up has not written, and other calls have written on its task at least
  eight times while it ran. -/
  gaveUp : ∀ n j r id rounds, s.threads[n]? = some ⟨j, .done r⟩ →
    j.said r = .error (.conflicts id rounds) →
    writesOf s.log n = 0 ∧ id = j.id ∧ 8 ≤ rivals n j.id (span n s.log)
  /-- Nothing else goes wrong, but for an insertion whose pointer would have to expire before the
  epoch: it has written and fails. -/
  failed : ∀ n j r e, s.threads[n]? = some ⟨j, .done r⟩ → j.said r = .error e →
    e = .conflicts j.id Client.maxRounds ∨ ∃ task, j = .insert task ∧
      f.binding.concatEnabled = true ∧ Client.pointerExpiry task ≤ 0 ∧ writesOf s.log n = 1

end Mirror

end MailQueue

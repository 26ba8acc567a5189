import MailQueue.Health
import MailQueue.KeyValue.Command
import MailQueue.KeyValue.Keys
import MailQueue.Store.Call

/-!
# The store on a key-value server

Each call of the store as the commands that it takes. A letter is only ever replaced or removed by
a script that compares it with the text read before; after a lost race it is read again, a bounded
number of times.

* `Client.answer` is the work for a call of the store;
* `Client.updateWith` is the loop of reading, deciding, and comparing and setting;
* `Client.scan` collects the marks over all pages, each once and in order.
-/

namespace MailQueue.KeyValue

/-- The store of one scope on a server. -/
structure Client where
  keys : Keys
  binding : Option Binding := none
  deriving DecidableEq, Repr

inductive Decision where
  | replace (task : Task)
  | remove

namespace Client

/-- How long before its sending a task stops to be joined, in milliseconds. -/
def pointerLeadMs : Int := 128

def scanCount : Nat := 1000

/-- How often a letter is read before an update is given up. -/
def maxRounds : Nat := 8

/-- How many cursors there are, hence how many pages at most. -/
def maxPages : Nat := UInt64.size

def serverError : StoreError := .server "redis"

/-- The mark of a task: its time of sending while it is open. -/
def markText (t : Task) : String :=
  if t.isOpen then String.ofList (Number.intDigits t.sendAt.ms) else ""

/-- When the pointer to a task expires. -/
def pointerExpiry (t : Task) : Int := t.sendAt.ms - pointerLeadMs

/-- The number that a mark holds, if it fits a signed word of 64 bits. -/
def markValue? (s : String) : Option Int :=
  let read := fun (negative : Bool) (ds : List Char) =>
    if ds.isEmpty ∨ !ds.all Char.isDigit then none
    else
      let n : Int := Number.digitsValue ds
      let n := if negative then -n else n
      if Number.fitsWord64 n then some n else none
  match s.toList with
  | '-' :: ds => read true ds
  | '+' :: ds => read false ds
  | ds => read false ds

/-- The text of a letter, and the task in it. -/
def loadLetter (c : Client) (id : TaskId) : Work (Except StoreError (Option (String × Task))) := do
  match ← .question (Command.get (c.keys.letter id)) with
  | none => return .error serverError
  | some none => return .ok none
  | some (some raw) =>
    match Task.ofLetter raw with
    | some task => return .ok (some (raw, task))
    | none => return .error .unreadable

/-- Runs a script, after making it known if the server does not know it. -/
def runScript (script : Script) (letterKey markKey expected replacement mark : String) :
    Work (Option Int) := do
  let command := Command.run script letterKey markKey expected replacement mark
  match ← .question command with
  | .applied n => return some n
  | .failed => return none
  | .unknown =>
    match ← .question (Command.load script) with
    | none => return none
    | some () =>
      match ← .question command with
      | .applied n => return some n
      | .unknown | .failed => return none

/-- Writes a decision, unless the letter has changed. -/
def write (c : Client) (id : TaskId) (raw : String) : Decision → Work (Option Int)
  | .replace task =>
    runScript .replace (c.keys.letter id) (c.keys.mark id) raw task.letter (markText task)
  | .remove => runScript .remove (c.keys.letter id) (c.keys.mark id) raw "" ""

/-- Reads, decides, and compares and sets, so many times at most. A decision of none leaves the
task as it is. -/
def updateWith (c : Client) (id : TaskId) (decide : Task → Option Decision) :
    Nat → Work (Except StoreError Bool)
  | 0 => return .error (.conflicts id maxRounds)
  | rounds + 1 => do
    match ← c.loadLetter id with
    | .error e => return .error e
    | .ok none => return .ok false
    | .ok (some (raw, task)) =>
      match decide task with
      | none => return .ok false
      | some decision =>
        match ← c.write id raw decision with
        | none => return .error serverError
        | some n => if n = 1 then return .ok true else updateWith c id decide rounds

/-- The keys of the pages from a cursor on. -/
def scanPages (c : Client) : Nat → Nat → Work (Option (List String))
  | 0, _ => return none
  | pages + 1, cursor => do
    match ← .question (Command.scan cursor c.keys.markPattern scanCount) with
    | none => return none
    | some (next, page) =>
      if next = 0 then return some page
      else
        match ← c.scanPages pages next with
        | none => return none
        | some rest => return some (page ++ rest)

/-- The marks of the scope, in order and each once. -/
def scan (c : Client) : Work (Option (List String)) := do
  match ← c.scanPages maxPages 0 with
  | none => return none
  | some keys => return some (keys.mergeSort fun a b => a ≤ b).eraseReps

/-- The task behind a mark, if it is due. -/
def look (c : Client) (b : Binding) (key : String) (now : Instant) :
    Work (Except StoreError (Option Task)) := do
  match c.keys.idOfMark? key with
  | none => return .ok none
  | some id =>
    match ← .question (Command.get key) with
    | none => return .error serverError
    | some mark =>
      match mark.bind markValue? with
      | none => return .ok none
      | some sendAt =>
        if now.ms < sendAt then return .ok none
        else
          match ← c.loadLetter id with
          | .error e => return .error e
          | .ok found =>
            return .ok ((found.map Prod.snd).filter fun t => t.isDue now b.maxAttempts)

/-- The open task that the pointer of a recipient leads to, if it is sent by then. -/
def find (c : Client) (recipient : Recipient) (before : Instant) :
    Work (Except StoreError (Option Task)) := do
  match ← .question (Command.get (c.keys.pointer recipient)) with
  | none => return .error serverError
  | some pointer =>
    match pointer.bind TaskId.parse? with
    | none => return .ok none
    | some id =>
      match ← c.loadLetter id with
      | .error e => return .error e
      | .ok found =>
        return .ok ((found.map Prod.snd).filter fun t => t.isOpen && decide (t.sendAt ≤ before))

/-- The writes that store a new task. -/
def insertWrites (c : Client) (b : Binding) (task : Task) : List Write :=
  [.set (c.keys.letter task.id) task.letter none,
      .set (c.keys.mark task.id) (markText task) none] ++
    if b.concatEnabled then
      [.set (c.keys.pointer task.recipient) task.id.text (some (pointerExpiry task))]
    else []

/-- What a patch makes of the stored task. -/
def patchDecision (p : Patch) (t : Task) : Option Decision := (p.applied? t).map .replace

def cancelDecision (b : Binding) (t : Task) : Option Decision :=
  if !t.isOpen then none
  else if b.keepHistory then some (.replace { t with cancelled := true })
  else some .remove

def whenBound {α : Type} (c : Client) (f : Binding → Work (Except StoreError α)) :
    Work (Except StoreError α) :=
  match c.binding with
  | some b => f b
  | none => return .error .notBound

def answer (c : Client) : (call : Store.Call) → Work call.Answer
  | .due _ => c.whenBound fun _ => do
    match ← c.scan with
    | none => return .error serverError
    | some keys => return .ok (keys.map .mark)
  | .look key now => c.whenBound fun b => c.look b key now
  | .find recipient before => c.whenBound fun _ => c.find recipient before
  | .insert task => c.whenBound fun b => do
    match ← .question (Command.transaction (c.insertWrites b task)) with
    | none => return .error serverError
    | some _ => return .ok ()
  | .mutate id p => c.updateWith id (patchDecision p) maxRounds
  | .delete id => do
    match ← .question (Command.transaction [.del (c.keys.letter id), .del (c.keys.mark id)]) with
    | some (removed :: _) => return .ok (decide (0 < removed))
    | _ => return .error serverError
  | .cancel id => c.whenBound fun b => c.updateWith id (cancelDecision b) maxRounds

def bind (c : Client) (b : Binding) : Client := { c with binding := c.binding.or (some b) }

def health (c : Client) : Work HealthReport :=
  if c.binding.isNone then return .notBound
  else do
    match ← .question Command.ping with
    | some "PONG" => return .ok
    | some other => return .unavailable ("unexpected PING reply: " ++ other)
    | none => return ⟨.error, 500, none⟩

def debug (c : Client) : String :=
  Text.record "RedisTaskStore" [
    ("keys", c.keys.debug), ("binding", Binding.debug c.binding)]

end Client

end MailQueue.KeyValue

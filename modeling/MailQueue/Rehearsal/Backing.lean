import MailQueue.KeyValue.Client
import MailQueue.KeyValue.Server
import MailQueue.Rehearsal.Fault
import MailQueue.Store.Memory

/-!
# The store of a rehearsal

Either the store in memory, or the store on a key-value server together with that server.

* `Backing.inMemory` and `Backing.command` answer what the two are asked;
* `Backing.contents` shows everything stored.
-/

namespace MailQueue.Rehearsal

/-- A store with all that it stands on. -/
inductive Backing where
  | memory (m : Memory)
  | keyValue (client : KeyValue.Client) (server : KeyValue.Server)

instance : Inhabited Backing := ⟨.memory {}⟩

namespace Backing

def name : Backing → String
  | memory _ => "memory"
  | keyValue _ _ => "redis"

/-- The order in which the map of a rehearsal goes through its tasks: those of one grouping key
follow each other, the newest first. -/
def arranged (m : Memory) : Memory :=
  { m with tasks := m.tasks.mergeSort fun s t =>
      decide (s.recipient.groupingKey ≤ t.recipient.groupingKey) }

def inMemory (call : Store.Call) : Backing → call.Answer × Backing
  | memory m => (((arranged m).answer call).1, memory (m.answer call).2)
  | keyValue c s => (Store.Call.failed (.other "") call, keyValue c s)

/-- A further mail for a task in memory, if the task is there. -/
def append (id : TaskId) (mail : Mail) : Backing → Backing
  | memory m =>
    match m.get? id with
    | some t => memory (m.put { t with fragments := t.fragments ++ [mail] })
    | none => memory m
  | keyValue c s => keyValue c s

/-- A command for the server; there is none beside the store in memory. -/
def command (now : Instant) (c : KeyValue.Command) : Backing → c.Answer × Backing
  | memory m => ((KeyValue.Server.answer now.ms c {}).1, memory m)
  | keyValue client s =>
    let (a, s) := KeyValue.Server.answer now.ms c s
    (a, keyValue client s)

/-- A queue starts to use the store. -/
def bind (b : Binding) : Backing → Backing
  | memory m => memory (m.bind b)
  | keyValue c s => keyValue (c.bind b) s

def health (now : Instant) : Backing → HealthReport × Backing
  | memory m => (m.health, memory m)
  | keyValue c s =>
    let (r, s) := c.health.run (KeyValue.Server.answer now.ms) s
    (r, keyValue c s)

/-- A stored text: an object as the map that it stands for, else the text. -/
def shownText (s : String) : Value :=
  match Json.parse s with
  | some (.object es) => (Value.object es).merged
  | _ => .text s

/-- Everything stored: tasks in the order of their identifiers, or entries in that of their
keys. -/
def contents (now : Instant) : Backing → Value
  | memory m => .list ((m.tasks.mergeSort fun s t => decide (s.id ≤ t.id)).map Task.toValue)
  | keyValue _ s =>
    let entries := (KeyValue.Server.live now.ms s.entries).mergeSort fun a b => a.1 ≤ b.1
    .list (entries.map fun e => .object [("key", .text e.1), ("value", shownText e.2.value),
      ("expires", match e.2.expires with
        | some t => .int t
        | none => .null)])

end Backing

end MailQueue.Rehearsal

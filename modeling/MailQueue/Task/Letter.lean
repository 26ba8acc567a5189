import MailQueue.Json.Record
import MailQueue.Json.Writer
import MailQueue.Task.Basic

/-!
# Letters

The persisted form of a task. Instants are kept in milliseconds; the mails are written as they are,
so that a further field with a well-known name is written beside it.

* `Task.written` is the object, `Task.toValue` the map it stands for, `Task.letter` its text;
* `Task.ofLetter` reads a text: unknown keys are passed over with what is written under them,
  attempts, transport and flags have defaults, and a key written twice is refused.
-/

namespace MailQueue

namespace Task

def written (t : Task) : Value :=
  .object <|
    [("uuid", .text t.id.text), ("to", t.recipient.toValue), ("tries", .nat t.attempts.toNat),
      ("sendAt", .int t.sendAt.ms), ("isSent", .bool t.sent), ("isCancelled", .bool t.cancelled),
      ("isFailed", .bool t.failed)] ++
    (t.template.map fun s => ("template", Value.text s)).toList ++
    [("transport", .nat t.transport)] ++
    (t.concatSubject.map fun s => ("concatSubject", Value.text s)).toList ++
    [("mailOptions", .list (t.fragments.map Mail.written))]

def toValue (t : Task) : Value := t.written.merged

def letter (t : Task) : String := Json.write t.written

/-- The keys of a task, in order. -/
def keys : List String :=
  ["uuid", "to", "tries", "sendAt", "isSent", "isCancelled", "isFailed", "template", "transport",
    "concatSubject", "mailOptions"]

def readId (v : Value) : Except ReadError TaskId := do
  match TaskId.parse? (← Reading.text v) with
  | some id => return id
  | none => throw .notIdentifier

def ofEntries (es : Entries Value) : Except ReadError Task := do
  return {
    id := ← Reading.required readId es "uuid"
    recipient := ← Reading.required Recipient.ofValue es "to"
    attempts := ← Reading.withDefault Reading.word32 0 es "tries"
    sendAt := ← Reading.required Reading.instant es "sendAt"
    sent := ← Reading.withDefault Reading.flag false es "isSent"
    cancelled := ← Reading.withDefault Reading.flag false es "isCancelled"
    failed := ← Reading.withDefault Reading.flag false es "isFailed"
    template := ← Reading.optional Reading.text es "template"
    transport := ← Reading.withDefault (Reading.below UInt64.size) 0 es "transport"
    concatSubject := ← Reading.optional Reading.text es "concatSubject"
    fragments := ← Reading.required (fun v => Reading.list v >>= List.mapM Mail.ofValue) es
      "mailOptions" }

/-- Reads the persisted form, written as an object or as the list of its values. -/
def ofValue (v : Value) : Except ReadError Task := Reading.record keys 0 v >>= ofEntries

def ofLetter (text : String) : Option Task :=
  (Json.parseRecord (fun k => k ∈ keys) text).bind fun v => (ofValue v).toOption

end Task

end MailQueue

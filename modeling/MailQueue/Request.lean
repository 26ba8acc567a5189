import MailQueue.Instant
import MailQueue.Mail

/-!
# Requests

What a caller hands in: a mail and how it is to be scheduled. The scheduling keys travel beside the
fields of the mail but are not among them.

* `Request.ofEntries` separates the two, `Request.entries` writes them together.
-/

namespace MailQueue

/-- An instant from an integer of milliseconds. -/
def Reading.instant : Value → Except ReadError Instant
  | .int i => match Instant.ofMs? i with
    | some t => .ok t
    | none => .error .outOfRange
  | _ => .error .notInstant

/-- A mail to be queued. -/
structure Request where
  mail : Mail
  /-- Not to be sent before; at once when absent. -/
  sendAt : Option Instant
  /-- Outer template in the place of the engine's. -/
  template : Option String
  /-- Subject for the case that mails are merged. -/
  concatSubject : Option String

namespace Request

/-- A request without scheduling. -/
def ofMail (mail : Mail) : Request := ⟨mail, none, none, none⟩

def schedulingKeys : List String := ["sendAt", "template", "concatSubject"]

/-- The persisted form: the mail, then the scheduling that is there. -/
def entries (r : Request) : Entries Value :=
  r.mail.entries ++
    (r.sendAt.map fun t => ("sendAt", Value.int t.ms)).toList ++
    (r.template.map fun s => ("template", Value.text s)).toList ++
    (r.concatSubject.map fun s => ("concatSubject", Value.text s)).toList

def toValue (r : Request) : Value := .object (Entries.merge r.entries)

def ofEntries (es : Entries Value) : Except ReadError Request := do
  return {
    sendAt := ← Reading.optional Reading.instant es "sendAt"
    template := ← Reading.optional Reading.text es "template"
    concatSubject := ← Reading.optional Reading.text es "concatSubject"
    mail := ← Mail.ofEntries (es.filter fun e => decide (e.1 ∉ schedulingKeys)) }

/-- Reads the persisted form of a request, which is always an object. -/
def ofValue (v : Value) : Except ReadError Request := Reading.object v >>= ofEntries

end Request

end MailQueue

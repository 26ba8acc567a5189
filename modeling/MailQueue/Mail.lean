import MailQueue.Recipient

/-!
# Mails

The content of a mail: what a caller submits, as one fragment of a task, and what a transport is
handed. Beside the well-known fields it carries any further ones, for placeholders and headers.

* `Mail.payload` is the flat view, in which a well-known field hides a further one of its name;
* `Mail.entries` is the persisted form: the well-known fields, then the further ones;
* `Mail.ofEntries` reads the persisted form, and reports the first wrong field in the order of
  the entries;
* `Mail.equivalent` is the comparison that finds a mail queued already.
-/

namespace MailQueue

/-- A fragment of a task, or a compiled message. -/
structure Mail where
  recipient : Recipient
  sender : Option String
  subject : Option String
  text : Option String
  html : Option String
  /-- Everything else. -/
  extra : Payload
  deriving Inhabited

/-- Present and not empty. -/
def nonEmpty? : Option String → Option String
  | some s => if s.isEmpty then none else some s
  | none => none

namespace Mail

/-- A mail that has a recipient only. -/
def new (recipient : Recipient) : Mail := ⟨recipient, none, none, none, none, .empty⟩

def field (m : Mail) (key : String) (value : Value) : Mail :=
  { m with extra := m.extra.put key value }

/-- The well-known texts with their keys. -/
def texts (m : Mail) : List (String × Option String) :=
  [("from", m.sender), ("subject", m.subject), ("text", m.text), ("html", m.html)]

/-- At least one body is there and not empty. -/
def hasBody (m : Mail) : Bool := (nonEmpty? m.text).isSome || (nonEmpty? m.html).isSome

def putText (p : Payload) (e : String × Option String) : Payload :=
  match e.2 with
  | some s => p.put e.1 (.text s)
  | none => p

/-- The flat view of every field, for placeholders and for merging. -/
def payload (m : Mail) : Payload :=
  m.texts.foldl putText (m.extra.put "to" m.recipient.toValue)

/-- The persisted form: the well-known fields that are there, then the further ones. -/
def entries (m : Mail) : Entries Value :=
  ("to", m.recipient.toValue) ::
    (m.texts.filterMap fun e => e.2.map fun s => (e.1, Value.text s)) ++ m.extra.entries

/-- The persisted form as an object, which may write a key twice. -/
def written (m : Mail) : Value := .object m.entries

/-- The persisted form as a map, a further field winning over a well-known one. -/
def toValue (m : Mail) : Value := .object (Entries.merge m.entries)

def knownKeys : List String := ["to", "from", "subject", "text", "html"]

/-- Refuses a wrong value of a well-known field. -/
def checkEntry (e : String × Value) : Except ReadError Unit :=
  if e.1 = "to" then (Recipient.ofValue e.2).map fun _ => ()
  else if e.1 ∈ knownKeys then
    match e.2 with
    | .null => .ok ()
    | v => (Reading.text v).map fun _ => ()
  else .ok ()

def ofEntries (es : Entries Value) : Except ReadError Mail := do
  es.forM checkEntry
  return {
    recipient := ← Reading.required Recipient.ofValue es "to"
    sender := ← Reading.optional Reading.text es "from"
    subject := ← Reading.optional Reading.text es "subject"
    text := ← Reading.optional Reading.text es "text"
    html := ← Reading.optional Reading.text es "html"
    extra := .ofEntries
      (Value.mergedEntries (es.filter fun e => decide (e.1 ∉ knownKeys))) }

/-- Reads the persisted form of a mail, which is always an object. -/
def ofValue (v : Value) : Except ReadError Mail := Reading.object v >>= ofEntries

/-- Equality up to the order of keys and of lists. -/
def equivalent (a b : Mail) : Bool := a.payload.equivalent b.payload

/-- Equality up to the order of keys. -/
def same (a b : Mail) : Bool :=
  a.recipient == b.recipient && a.sender == b.sender && a.subject == b.subject &&
    a.text == b.text && a.html == b.html && a.extra.same b.extra

end Mail

end MailQueue

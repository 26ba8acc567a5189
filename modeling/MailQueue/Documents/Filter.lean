import MailQueue.Documents.Document

/-!
# Filters

Which documents a command is for: one condition per field, all of which have to hold.

* `Filter.matches` is the meaning of a filter on a document;
* `openFilter`, `dueFilter`, `pendingFilter`, `cancelFilter` and `mutateFilter` are the filters of
  the store.
-/

namespace MailQueue.Documents

inductive Condition where
  | text (s : String)
  | flag (b : Bool)
  | number (n : Int)
  | atMost (n : Int)
  | below (n : Int)
  /-- A list of so many items. -/
  | size (n : Int)
  deriving DecidableEq, Repr

/-- Whether a datum meets a condition. Integers are compared by value. -/
def Condition.holds : Condition → Datum → Bool
  | text s, .text s' => s == s'
  | flag b, .bool b' => b == b'
  | number n, .int i => i == n
  | atMost n, .int i => decide (i ≤ n)
  | below n, .int i => decide (i < n)
  | size n, .list items => (items.length : Int) == n
  | _, _ => false

abbrev Filter := Entries Condition

/-- Whether a document meets all conditions. -/
def Filter.matches (f : Filter) (d : Document) : Bool :=
  f.all fun c => match Entries.get? d c.1 with
    | some datum => c.2.holds datum
    | none => false

/-- An integer as a signed word of 64 bits. -/
def word64 (n : Nat) : Int := Int.bmod n UInt64.size

def openFilter : Filter :=
  [("isSent", .flag false), ("isCancelled", .flag false), ("isFailed", .flag false)]

def idFilter (id : TaskId) : Filter := [("uuid", .text id.text)]

def dueFilter (now : Instant) (maxAttempts : UInt32) : Filter :=
  openFilter ++ [("sendAt", .atMost now.ms), ("tries", .below maxAttempts.toNat)]

/-- The documents of open tasks that a mail to a recipient may join. -/
def pendingFilter (recipient : Recipient) (before : Instant) : Filter :=
  openFilter ++ [(recipientKey, .text recipient.groupingKey), ("sendAt", .atMost before.ms)]

/-- The document of a task, if it is open. -/
def cancelFilter (id : TaskId) : Filter := idFilter id ++ openFilter

/-- The document of a task, if it meets the condition of a patch. -/
def mutateFilter (id : TaskId) (p : Patch) : Filter :=
  match p.guard with
  | none => idFilter id
  | some (.unclaimed attempts) => cancelFilter id ++ [("tries", .number attempts.toNat)]
  | some (.appendable attempts fragments) =>
    cancelFilter id ++
      [("tries", .number attempts.toNat), ("mailOptions", .size (word64 fragments))]

end MailQueue.Documents

import MailQueue.Documents.Filter
import MailQueue.Health
import MailQueue.Program
import MailQueue.Store.Call

/-!
# The store on a document server

Each call of the store as the command that it takes; claims, joins and cancellations are single
updates under a filter.

* `Client.answer` is the work for a call of the store;
* `Client.ensureIndexes` makes the indexes, replacing one in conflict, and never fails;
* `Link.down` answers the commands when no server can be reached.
-/

namespace MailQueue.Documents

/-- An index: its fields in order, and whether it forbids repetition. -/
structure Index where
  fields : List String
  unique : Bool
  deriving DecidableEq, Repr

inductive IndexResult where
  | done
  /-- An index of these fields is there with other options or another name. -/
  | conflict
  | failed
  deriving DecidableEq, Repr

inductive Command where
  | ping
  | find (filter : Filter)
  /-- The document with the latest time of sending. -/
  | findLatest (filter : Filter)
  | count (filter : Filter)
  | insert (document : Document)
  | update (filter : Filter) (fields : Document)
  | delete (filter : Filter)
  | createIndex (index : Index)
  /-- The indexes that there are, with their names. -/
  | listIndexes
  | dropIndex (name : String)

/-- The answers; none stands for a command that could not be sent or was refused. -/
@[reducible] def Command.Answer : Command → Type
  | ping => Option Unit
  | find _ => Option (List Document)
  | findLatest _ => Option (Option Document)
  | count _ => Option Nat
  | insert _ => Option Unit
  | update _ _ => Option Nat
  | delete _ => Option Nat
  | createIndex _ => IndexResult
  | listIndexes => Option (List (String × Index))
  | dropIndex _ => Option Unit

abbrev Work := Program Command Command.Answer

/-- The store of one scope on a server. -/
structure Client where
  scope : String
  binding : Option Binding := none
  deriving DecidableEq, Repr

namespace Client

def serverError : StoreError := .server "mongodb"

/-- The failure to make a document. -/
def encodingError : StoreError := .server "bson"

/-- Where the tasks of the scope are kept. -/
def collection (c : Client) : String := "__mailTimeQueue__" ++ c.scope

def indexes : List Index := [
  ⟨["uuid"], true⟩,
  ⟨["isSent", "isFailed", "isCancelled", recipientKey, "sendAt"], false⟩,
  ⟨["isSent", "isFailed", "isCancelled", "sendAt", "tries"], false⟩]

/-- The same fields, in any order. -/
def sameFields (a b : Index) : Bool :=
  a.fields.all (b.fields.contains ·) && b.fields.all (a.fields.contains ·)

/-- Drops the indexes of these names, until one cannot be dropped. -/
def dropAll : List String → Work (Option Unit)
  | [] => return some ()
  | name :: rest => do
    match ← .question (Command.dropIndex name) with
    | none => return none
    | some () => dropAll rest

/-- Makes an index in the place of those of the same fields. -/
def recreateIndex (index : Index) : Work (Option Unit) := do
  match ← .question Command.listIndexes with
  | none => return none
  | some present =>
    let names := (present.filter fun e => sameFields e.2 index).map Prod.fst
    match ← dropAll names with
    | none => return none
    | some () =>
      match ← .question (Command.createIndex index) with
      | .done => return some ()
      | .conflict | .failed => return none

/-- Makes an index; a failure is not reported. -/
def ensureIndex (index : Index) : Work Unit := do
  match ← .question (Command.createIndex index) with
  | .done | .failed => return ()
  | .conflict =>
    let _ ← recreateIndex index
    return ()

def ensureIndexes : List Index → Work Unit
  | [] => return ()
  | index :: rest => do
    ensureIndex index
    ensureIndexes rest

/-- The work for a call, if a queue uses the store. -/
def whenBound {α : Type} (c : Client) (f : Binding → Work (Except StoreError α)) :
    Work (Except StoreError α) :=
  match c.binding with
  | some b => f b
  | none => return .error .notBound

/-- An answer, or the failure of the server. -/
def orFailed {α β : Type} (f : α → β) : Option α → Except StoreError β
  | some a => .ok (f a)
  | none => .error serverError

def dueOf (d : Document) : Store.Due :=
  match taskOf? d with
  | some t => .task t
  | none => .unreadable serverError

/-- Updates the document that a filter finds, if there is something to set, and else looks whether
it is there. -/
def mutate (forms : Forms) (id : TaskId) (p : Patch) : Work (Except StoreError Bool) := do
  let filter := mutateFilter id p
  if p.isEmpty then
    return orFailed (fun n => decide (0 < n)) (← .question (Command.count filter))
  else match patchDocument? forms p with
    | none => return .error encodingError
    | some fields =>
      return orFailed (fun n => decide (0 < n)) (← .question (Command.update filter fields))

def cancel (b : Binding) (id : TaskId) : Work (Except StoreError Bool) := do
  let command := if b.keepHistory then
      Program.question (Command.update (cancelFilter id) [("isCancelled", .bool true)])
    else Program.question (Command.delete (cancelFilter id))
  return orFailed (fun n => decide (0 < n)) (← command)

/-- The open task that a mail to a recipient may join. -/
def find (recipient : Recipient) (before : Instant) : Work (Except StoreError (Option Task)) := do
  match ← .question (Command.findLatest (pendingFilter recipient before)) with
  | none => return .error serverError
  | some none => return .ok none
  | some (some d) =>
    match taskOf? d with
    | some t => return .ok (some t)
    | none => return .error serverError

def answer (forms : Forms) (c : Client) : (call : Store.Call) → Work call.Answer
  | .due now => c.whenBound fun b => do
    return orFailed (List.map dueOf) (← .question (Command.find (dueFilter now b.maxAttempts)))
  | .look _ _ => return .ok none
  | .find recipient before => c.whenBound fun _ => find recipient before
  | .insert task => c.whenBound fun _ => do
    match taskDocument? forms task with
    | none => return .error encodingError
    | some document => return orFailed id (← .question (Command.insert document))
  | .mutate id p => mutate forms id p
  | .delete id => do
    return orFailed (fun n => decide (0 < n)) (← .question (Command.delete (idFilter id)))
  | .cancel id => c.whenBound fun b => cancel b id

/-- The first queue to use the store decides. -/
def bind (c : Client) (b : Binding) : Client := { c with binding := c.binding.or (some b) }

/-- Asks the server for a sign of life. What a failing server said is not repeated. -/
def health (c : Client) : Work HealthReport :=
  if c.binding.isNone then return .notBound
  else do
    match ← .question Command.ping with
    | some () => return .ok
    | none => return ⟨.error, 500, none⟩

def debug (c : Client) : String :=
  Text.record "MongoTaskStore" [
    ("collection", Text.quoted c.collection), ("binding", Binding.debug c.binding)]

/-- Opens the store at an address and makes the indexes. An address that names no server is
refused; whether the server can be reached shows only later. -/
def connect (address scope : String) : Work (Except StoreError Client) := do
  if address.startsWith "mongodb://" && address != "mongodb://" then
    ensureIndexes indexes
    return .ok ⟨scope, none⟩
  else return .error serverError

end Client

/-- The answer to a command when no server can be reached. -/
def Link.down : (c : Command) → Unit → c.Answer × Unit
  | .ping, s | .find _, s | .findLatest _, s | .count _, s | .insert _, s | .update _ _, s
  | .delete _, s | .listIndexes, s | .dropIndex _, s => (none, s)
  | .createIndex _, s => (.failed, s)

end MailQueue.Documents

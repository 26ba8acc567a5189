import MailQueue.Task.Patch

/-!
# Calls of a store

What a queue asks of the store that keeps its tasks. A call is answered at once and as a whole;
what a store does inside is its own matter.

* `Store.Call` lists the calls and `Store.Call.Answer` the type of each answer;
* `Store.Due` is a due task as a store lists it, at hand or still to be looked up;
* `StoreError` are the causes for which a call fails.
-/

namespace MailQueue

/-- Why a call of a store failed. -/
inductive StoreError where
  /-- No queue uses the store yet. -/
  | notBound
  /-- What is stored is no task. -/
  | unreadable
  /-- A task with this identifier is there already. -/
  | duplicate (id : TaskId)
  /-- Other writers were faster, so many times. -/
  | conflicts (id : TaskId) (rounds : Nat)
  /-- The server of this name could not be asked, or refused. -/
  | server (name : String)
  /-- Any other cause. -/
  | other (cause : String)
  deriving DecidableEq, Repr

/-- The wording of a cause; what a server or a reader said is not repeated. -/
def StoreError.message : StoreError → Option String
  | notBound => some "storage adapter is not bound to a mail queue yet"
  | unreadable => none
  | duplicate id => some ("storage backend error: duplicate task id " ++ id.text)
  | conflicts id rounds =>
    some ("storage backend error: gave up updating task " ++ id.text ++ " after " ++
      String.ofList (Number.natDigits rounds) ++ " conflicting writes")
  | server name => some name
  | other cause => some ("storage backend error: " ++ cause)

/-- What a store needs to know of the queue that uses it. -/
structure Binding where
  /-- Tasks with so many attempts are not due any more. -/
  maxAttempts : UInt32
  /-- Finished tasks are kept. -/
  keepHistory : Bool
  /-- Mails to one recipient are merged. -/
  concatEnabled : Bool
  deriving DecidableEq, Repr

/-- How a diagnostic shows a binding that may be missing. -/
def Binding.debug : Option Binding → String
  | none => "None"
  | some b =>
    "Some(" ++ Text.record "QueueBinding" [
      ("max_attempts", String.ofList (Number.natDigits b.maxAttempts.toNat)),
      ("keep_history", if b.keepHistory then "true" else "false"),
      ("concat_enabled", if b.concatEnabled then "true" else "false")] ++ ")"

namespace Store

/-- A due task as a store lists it. -/
inductive Due where
  /-- The task itself. -/
  | task (t : Task)
  /-- An entry that could not be read. -/
  | unreadable (e : StoreError)
  /-- The mark of a task that is to be looked up when its turn comes. -/
  | mark (key : String)

inductive Call where
  /-- The tasks due at an instant. -/
  | due (now : Instant)
  /-- The task behind a mark, if it is still due. -/
  | look (key : String) (now : Instant)
  /-- The open task for a recipient, to be sent at an instant or before. -/
  | find (recipient : Recipient) (before : Instant)
  /-- Stores a new task. -/
  | insert (task : Task)
  /-- Updates a task; false if it is gone or the condition is not met. -/
  | mutate (id : TaskId) (patch : Patch)
  /-- Removes a task; false if it is gone. -/
  | delete (id : TaskId)
  /-- Takes an open task out of the queue; false if there is none. -/
  | cancel (id : TaskId)

@[reducible] def Call.Answer : Call → Type
  | due _ => Except StoreError (List Due)
  | look _ _ => Except StoreError (Option Task)
  | find _ _ => Except StoreError (Option Task)
  | insert _ => Except StoreError Unit
  | mutate _ _ => Except StoreError Bool
  | delete _ => Except StoreError Bool
  | cancel _ => Except StoreError Bool

def Call.failed (e : StoreError) : (c : Call) → c.Answer
  | due _ | look _ _ | find _ _ | insert _ | mutate _ _ | delete _ | cancel _ => .error e

end Store

end MailQueue

import MailQueue.Queue.Basic

/-!
# Taking mail in

A request becomes a task of its own, or joins an open task for the same recipient if merging is on.
The joining is guarded by the number of mails that the look-up saw; after a lost race the task is
looked up again, a bounded number of times.

* `Queue.enqueue` answers the identifier of the task that will carry the mail;
* `Queue.concatenate` joins an open task, or finds the same mail in it already;
* `Queue.cancel` takes a task out of the queue, once.
-/

namespace MailQueue.Queue

/-- How often an open task is looked up before a mail opens its own. -/
def maxAppendRounds : Nat := 8

/-- The patch that adds a mail to a task as it was looked up. -/
def appendPatch (task : Task) (mail : Mail) : Patch :=
  (Patch.replaceFragments (task.fragments ++ [mail])).guarded
    (.appendable task.attempts task.fragments.length)

/-- Joins an open task for the recipient, to be sent at the end of the window or before. Answers
the task's identifier, or none if the mail needs a task of its own. -/
def concatenate (mail : Mail) (windowEnd : Instant) :
    Nat → Work (Except StoreError (Option TaskId))
  | 0 => return .ok none
  | rounds + 1 => do
    match ← call (.find mail.recipient windowEnd) with
    | .error e => return .error e
    | .ok none => return .ok none
    | .ok (some task) =>
      if task.fragments.any fun m => m.equivalent mail then return .ok (some task.id)
      else
        match ← call (.mutate task.id (appendPatch task mail)) with
        | .error e => return .error e
        | .ok true => return .ok (some task.id)
        | .ok false => concatenate mail windowEnd rounds

/-- Stores a task of its own for the request. -/
def openTask (request : Request) (sendAt : Instant) : Work (Except EnqueueError TaskId) := do
  let id ← askFreshId
  let task := { Task.new id request.mail sendAt with
    template := request.template
    concatSubject := request.concatSubject }
  match ← call (.insert task) with
  | .error e => return .error (.refused (.storage e))
  | .ok () => return .ok id

/-- The end of the window in which mails are merged. -/
def windowEnd (q : Queue) (sendAt : Instant) : Except EnqueueError Instant :=
  let delay := q.config.concat.delayMs.toNat * nsPerMs
  if maxSpan < delay then .error (.refused (.config .concatDelay))
  else match sendAt.add? delay with
    | some t => .ok t
    | none => .error .outsideCalendar

/-- Takes a request in. -/
def enqueue (q : Queue) (request : Request) : Work (Except EnqueueError TaskId) := do
  if !request.mail.hasBody then return .error (.refused .missingBody)
  if !request.mail.recipient.valid then return .error (.refused .invalidRecipient)
  let sendAt ← match request.sendAt with
    | some t => pure t
    | none => askNow
  if q.config.concat.enabled then
    match q.windowEnd sendAt with
    | .error e => return .error e
    | .ok windowEnd =>
      match ← concatenate request.mail windowEnd maxAppendRounds with
      | .error e => return .error (.refused (.storage e))
      | .ok (some id) => return .ok id
      | .ok none => openTask request windowEnd
  else openTask request sendAt

/-- Takes a task out of the queue; true only the first time, and only before it is in hand. A
failure of the store counts as false. -/
def cancel (id : TaskId) : Work Bool := do
  match ← call (.cancel id) with
  | .ok cancelled => return cancelled
  | .error _ => return false

end MailQueue.Queue

import MailQueue.Proofs.Fleet.Basic

/-!
# What the records of a fleet tell

Claims, resolutions and sends are read off the answers that were given. The store itself plays no
part in these definitions.

* `claim?`, `resolves`, `withdraws`, `inserts` and `appended?` sort the exchanges with the store,
  for one identifier;
* `adds` and `now?` are about any task, what was taken in and what the time was;
* `tries` are the attempts that the claims of a task have written, `sends` the records of the
  messages handed over for it;
* `InHand` says that a job has claimed a task and not yet resolved it.
-/

namespace MailQueue.Fleet

open Queue Interleaving

/-- The attempt that a claim of the task has written, the claim having been made. -/
def claim? (id : TaskId) : Exchange → Option UInt32
  | ⟨.store (.mutate i p), .ok true⟩ =>
    match p.guard with
    | some (.unclaimed _) => if i = id then p.attempts else none
    | _ => none
  | _ => none

/-- An unconditional write of the task that was made: it is removed, put back or given up. -/
def resolves (id : TaskId) : Exchange → Bool
  | ⟨.store (.delete i), .ok _⟩ => i == id
  | ⟨.store (.mutate i p), .ok true⟩ => p.guard.isNone && i == id
  | _ => false

def withdraws (id : TaskId) : Exchange → Bool
  | ⟨.store (.cancel i), .ok true⟩ => i == id
  | _ => false

/-- An unconditional update of some task that was made: it is put back or given up. -/
def updates : Exchange → Bool
  | ⟨.store (.mutate _ p), .ok true⟩ => p.guard.isNone
  | _ => false

def inserts (id : TaskId) : Exchange → Bool
  | ⟨.store (.insert task), .ok ()⟩ => task.id == id
  | _ => false

def appended? (id : TaskId) : Exchange → Option Mail
  | ⟨.store (.mutate i p), .ok true⟩ =>
    if i = id then p.fragments.bind List.getLast? else none
  | _ => none

/-- A mail was taken into the store, as a task of its own or with others. -/
def adds : Exchange → Bool
  | ⟨.store (.insert _), .ok ()⟩ => true
  | ⟨.store (.mutate _ p), .ok true⟩ => p.fragments.isSome
  | _ => false

def now? : Exchange → Option Instant
  | ⟨.now, t⟩ => some t
  | _ => none

def fresh? : Exchange → Option TaskId
  | ⟨.freshId, id⟩ => some id
  | _ => none

def outcome? : Exchange → Option SendOutcome
  | ⟨.send _ _, o⟩ => some o
  | _ => none

/-- The message was accepted for some address. -/
def accepts (x : Exchange) : Bool :=
  match outcome? x with
  | some (.report r) => !r.accepted.isEmpty
  | _ => false

def Job.task? (j : Job) : Option Task :=
  match j.duty with
  | .process _ t => some t
  | _ => none

/-- The record of a message handed over for the task. -/
def sendsFor (id : TaskId) (e : Entry) : Bool :=
  (e.job.task?.any fun t => t.id == id) && (outcome? e.exchange).isSome

def tries (log : List Entry) (id : TaskId) : List UInt32 :=
  log.filterMap fun e => claim? id e.exchange

/-- The records of the messages handed over for a task, in order. -/
def sends (log : List Entry) (id : TaskId) : List Entry := log.filter (sendsFor id)

/-- The answers show a claim of the task and no resolution. -/
def Holds (id : TaskId) (l : List Exchange) : Prop :=
  (∃ x ∈ l, (claim? id x).isSome) ∧ ∀ x ∈ l, resolves id x = false

/-- The job of this number has claimed the task and not yet resolved it. -/
def InHand (log : List Entry) (n : Nat) (id : TaskId) : Prop := Holds id (pastIn log n)

lemma appended?_append (id : TaskId) (task : Task) (m : Mail) :
    appended? id ⟨.store (.mutate id (appendPatch task m)),
      (Except.ok true : Except StoreError Bool)⟩ = some m := by
  simp [appended?, appendPatch, Patch.guarded, Patch.replaceFragments]

lemma not_holds_nil (id : TaskId) : ¬ Holds id [] := by
  rintro ⟨⟨x, hx, -⟩, -⟩
  cases hx

lemma not_resolves_of_claim {id : TaskId} {x : Exchange} (hc : (claim? id x).isSome = true) :
    resolves id x = false := by
  unfold claim? at hc
  split at hc
  · split at hc
    · next hg => simp [resolves, hg]
    · cases hc
  · cases hc

lemma outcome_of_inserts {id : TaskId} {x : Exchange} (h : inserts id x = true) :
    outcome? x = none := by
  obtain ⟨q, a⟩ := x
  cases q with
  | store => rfl
  | _ => cases h

lemma holds_append_of_quiet {id : TaskId} {l : List Exchange} {x : Exchange}
    (hc : claim? id x = none) (hr : resolves id x = false) : Holds id (l ++ [x]) ↔ Holds id l := by
  unfold Holds
  constructor
  · rintro ⟨⟨y, hy, hs⟩, ha⟩
    refine ⟨⟨y, ?_, hs⟩, fun z hz => ha z (List.mem_append_left _ hz)⟩
    rcases List.mem_append.1 hy with hy | hy
    · exact hy
    · rw [List.mem_singleton.1 hy, hc] at hs
      cases hs
  · rintro ⟨⟨y, hy, hs⟩, ha⟩
    refine ⟨⟨y, List.mem_append_left _ hy, hs⟩, fun z hz => ?_⟩
    rcases List.mem_append.1 hz with hz | hz
    · exact ha z hz
    · rw [List.mem_singleton.1 hz, hr]

lemma not_holds_of_resolves {id : TaskId} {l : List Exchange} {x : Exchange}
    (hr : resolves id x = true) : ¬ Holds id (l ++ [x]) := by
  rintro ⟨-, ha⟩
  rw [ha x (by simp)] at hr
  cases hr

end MailQueue.Fleet

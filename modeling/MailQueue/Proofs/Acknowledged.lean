import MailQueue.Proofs.Listing
import MailQueue.Proofs.Mirror.Update
import MailQueue.Proofs.Readable

/-!
# Acknowledged identifiers

A request that is taken in over a store on a server is written as a letter and not read back. What
becomes of it is decided by whether the letter can be read.

* `Server.Holds`: letter and mark of a task stand as its insertion wrote them;
* `World.Quiet.enqueued`: so they stand when a request has been taken in;
* `World.Quiet.cancelled` and `World.Quiet.run_scout` are a cancellation and the look of a tick;
* `acknowledged`: the identifier is `Usable` if the mail is readable and `Unusable` if not.
-/

namespace MailQueue

open KeyValue

namespace Entries

variable {α : Type} {l : Entries α} {key : String} {v : α}

theorem get?_filter_of_get? {p : String × α → Bool} (h : l.get? key = some v)
    (hp : p (key, v) = true) : Entries.get? (l.filter p) key = some v := by
  induction l with
  | nil => cases h
  | cons e l ih =>
    obtain ⟨k, w⟩ := e
    rw [get?_cons] at h
    by_cases hk : k = key
    · rw [if_pos hk] at h
      obtain rfl := Option.some.inj h
      subst hk
      rw [List.filter_cons_of_pos hp, get?_cons, if_pos rfl]
    · rw [if_neg hk] at h
      cases he : p (k, w) with
      | true => rw [List.filter_cons_of_pos he, get?_cons, if_neg hk, ih h]
      | false => rw [List.filter_cons_of_neg (by simp [he]), ih h]

end Entries

namespace KeyValue

/-! ### Scripts on a calm server -/

namespace Server

variable {s : Server} {now : Int} {k : Keys} {t : Task}

/-- Letter and mark of a task stand as its insertion wrote them. -/
structure Holds (s : Server) (k : Keys) (t : Task) : Prop where
  letter : s.entries.get? (k.letter t.id) = some ⟨t.letter, none⟩
  mark : s.entries.get? (k.mark t.id) = some ⟨Client.markText t, none⟩

theorem get?_of_entry {key value : String} (h : s.entries.get? key = some ⟨value, none⟩)
    (now : Int) : s.get? now key = some value := by
  rw [get?, live, Entries.get?_filter_of_get? h rfl]
  rfl

theorem entry_set (now : Int) (key value : String) :
    (s.set now key value none).entries.get? key = some ⟨value, none⟩ :=
  Entries.get?_filter_of_get? (by rw [Entries.get?_put, if_pos rfl]) rfl

theorem entry_set_of_ne {key key' value value' : String} (hk : key ≠ key')
    (h : s.entries.get? key' = some ⟨value', none⟩) :
    (s.set now key value none).entries.get? key' = some ⟨value', none⟩ := by
  refine Entries.get?_filter_of_get? ?_ rfl
  rw [Entries.get?_put, if_neg hk]
  exact Entries.get?_filter_of_get? h rfl

/-- **A look at the mark** of a task as it was inserted shows the task, from its time on, if its
letter can be read, and else fails. -/
theorem Holds.seen_mark {c : Client} {b : Binding} (ht : s.Holds c.keys t)
    (hopen : t.isOpen = true) (hwords : t.transport < UInt64.size)
    (hleft : t.attempts < b.maxAttempts) {time : Instant} (hnow : t.sendAt ≤ time) (clock : Int) :
    c.seen b s clock (c.keys.mark t.id) time =
      match Task.ofLetter t.letter with
      | none => .error .unreadable
      | some u => .ok (some u) := by
  have hletter := Server.get?_of_entry ht.letter clock
  have hmark := Server.get?_of_entry ht.mark clock
  have hms : ¬time.ms < t.sendAt.ms := Int.not_lt.2 (Instant.ms_le_ms hnow)
  simp only [Client.seen, Keys.idOfMark?_mark, hmark, Option.bind_some,
    Client.markValue?_markText hopen, if_neg hms, hletter]
  rcases hu : Task.ofLetter t.letter with _ | u
  · rfl
  · rw [Task.ofLetter_letter_eq hwords] at hu
    obtain ⟨ms, -, rfl⟩ := Option.map_eq_some_iff.1 hu
    have hdue : Task.isDue { t with sendAt := t.sendAt.floorMs, fragments := ms } time
        b.maxAttempts = true :=
      Task.isDue_iff.2 ⟨hopen, Instant.le_trans t.sendAt.floorMs_le hnow, hleft⟩
    simp only [hdue, if_true]

/-- A new task is stored by two writes if mails are not merged. -/
theorem holds_insert {c : Client} {b : Binding} (hb : b.concatEnabled = false) (s : Server)
    (now : Int) (t : Task) :
    writeAll now s (c.insertWrites b t) = ([some 1, some 1],
        (s.set now (c.keys.letter t.id) t.letter none).set now (c.keys.mark t.id)
          (Client.markText t) none) ∧
      (writeAll now s (c.insertWrites b t)).2.Holds c.keys t := by
  have hwrites : writeAll now s (c.insertWrites b t) = ([some 1, some 1],
      (s.set now (c.keys.letter t.id) t.letter none).set now (c.keys.mark t.id)
        (Client.markText t) none) := by
    simp only [Client.insertWrites, hb]
    rfl
  refine ⟨hwrites, ?_⟩
  rw [hwrites]
  exact ⟨entry_set_of_ne (Ne.symm (Keys.letter_ne_mark _ _)) (entry_set now _ _),
    entry_set now _ _⟩

theorem run_question {α : Type} (q : Command) (f : q.Answer → Work α) :
    ((Program.question q : Work q.Answer) >>= f).run (Server.answer now) s =
      (f (s.answer now q).1).run (Server.answer now) (s.answer now q).2 := rfl

theorem Calm.run_script (h : s.Calm) {script : Script} {letterKey markKey raw letter mark : String}
    (hraw : s.get? now letterKey = some raw) :
    ((Client.runScript script letterKey markKey raw letter mark).run (Server.answer now) s).1 =
      some 1 := by
  rw [Client.runScript, run_question]
  by_cases hs : script ∈ s.known
  · rw [h.answer_run hs, runScript_applied hraw]
    rfl
  · rw [h.answer_run_of_unknown hs]
    simp only
    rw [run_question, h.answer_load]
    simp only
    have hcalm : Calm { s with known := script :: s.known } := ⟨h.failing, h.beforeScript⟩
    have hraw' : Server.get? { s with known := script :: s.known } now letterKey = some raw := hraw
    rw [run_question, hcalm.answer_run List.mem_cons_self, runScript_applied hraw']
    rfl

/-- An update of a letter that cannot be read fails. -/
theorem Calm.run_update_unreadable (h : s.Calm) {c : Client} {id : TaskId} {raw : String}
    (hraw : s.get? now (c.keys.letter id) = some raw) (hread : Task.ofLetter raw = none)
    (decide : Task → Option Decision) (rounds : Nat) :
    (c.updateWith id decide (rounds + 1)).run (Server.answer now) s = (.error .unreadable, s) := by
  rw [Client.updateWith]
  show ((c.loadLetter id).bind _).run _ _ = _
  rw [Program.run_bind, Client.run_loadLetter fun key => h.answer_get now key, hraw]
  simp only [hread]
  rfl

/-- An update of a letter that can be read is made if there is something to decide. -/
theorem Calm.run_update (h : s.Calm) {c : Client} {id : TaskId} {raw : String} {u : Task}
    (hraw : s.get? now (c.keys.letter id) = some raw) (hread : Task.ofLetter raw = some u)
    {decide : Task → Option Decision} {d : Decision} (hd : decide u = some d) (rounds : Nat) :
    ((c.updateWith id decide (rounds + 1)).run (Server.answer now) s).1 = .ok true := by
  rw [Client.updateWith]
  show (((c.loadLetter id).bind _).run _ _).1 = _
  rw [Program.run_bind, Client.run_loadLetter fun key => h.answer_get now key, hraw]
  simp only [hread, hd]
  show (((c.write id raw d).bind _).run _ _).1 = _
  have hwrite : ((c.write id raw d).run (Server.answer now) s).1 = some 1 := by
    rw [show c.write id raw d = c.write id (Swap.mk raw d).raw (Swap.mk raw d).decision from rfl,
      Update.write_eq]
    exact h.run_script hraw
  rw [Program.run_bind, hwrite]
  rfl

end Server

end KeyValue

/-! ### Queues over a store on a server -/

namespace Rehearsal

variable {w w' : World} {c : Client} {b : Binding} {s : Server}

namespace World

theorem run_command (h : w.backing = .keyValue c s) {α : Type} (p : KeyValue.Work α) :
    p.run (fun q => World.answer (.command q)) w =
      ((p.run (Server.answer w.clock.ms) s).1,
        { w with backing := .keyValue c (p.run (Server.answer w.clock.ms) s).2 }) := by
  induction p generalizing w s with
  | done a => simp only [Program.run, ← h]
  | ask q next ih =>
    have hstep : World.answer (.command q) w = ((s.answer w.clock.ms q).1,
        { w with backing := .keyValue c (s.answer w.clock.ms q).2 }) := by
      simp only [World.answer, h]
      rfl
    simp only [Program.run, hstep]
    exact ih _ rfl

theorem Quiet.run_call (h : w.Quiet c b s) (call : Store.Call) :
    ((Access.keyValue c).call call).run World.answer w =
      (((c.answer call).run (Server.answer w.clock.ms) s).1,
        { w with
          backing := .keyValue c ((c.answer call).run (Server.answer w.clock.ms) s).2 }) := by
  rw [Access.run_call c call (h.answer_fault call), run_expand_command, run_command h.backing]

end World

end Rehearsal

namespace Queue

variable {q : Queue} {r : Request}

theorem enqueue_eq (hconcat : q.config.concat.enabled = false) :
    q.enqueue r =
      if !r.mail.hasBody then .done (.error (.refused .missingBody))
      else if !r.mail.recipient.valid then .done (.error (.refused .invalidRecipient))
      else match r.sendAt with
        | some t => openTask r t
        | none => askNow >>= openTask r := by
  unfold enqueue
  simp only [hconcat]
  cases r.mail.hasBody <;> cases r.mail.recipient.valid <;> cases r.sendAt <;> rfl

def opened (r : Request) (id : TaskId) (sendAt : Instant) : Task :=
  { Task.new id r.mail sendAt with template := r.template, concatSubject := r.concatSubject }

end Queue

namespace Rehearsal.World

variable {w w' : World} {c : Client} {b : Binding} {s : Server} {q : Queue} {r : Request}

theorem freshId_eq (w : World) :
    w.freshId.2.clock = w.clock ∧ w.freshId.2.plan = w.plan ∧ w.freshId.2.backing = w.backing := by
  rw [freshId]
  split <;> exact ⟨rfl, rfl, rfl⟩

theorem Quiet.freshId (h : w.Quiet c b s) : w.freshId.2.Quiet c b s :=
  ⟨w.freshId_eq.2.2.trans h.backing, w.freshId_eq.2.1.trans h.plan, h.bound, h.calm⟩

theorem Quiet.run_insert (h : w.Quiet c b s) (hb : b.concatEnabled = false) {now : Int}
    (hnow : w.clock.ms = now) (t : Task) :
    ((Access.keyValue c).call (.insert t)).run answer w =
      (.ok (), { w with
        backing := .keyValue c (Server.writeAll now s (c.insertWrites b t)).2 }) := by
  have hrun : (c.answer (.insert t)).run (Server.answer now) s =
      (.ok (), (Server.writeAll now s (c.insertWrites b t)).2) := by
    simp only [Client.answer, Client.whenBound, h.bound]
    rw [Server.run_question, h.calm.answer_transaction, (Server.holds_insert hb s _ t).1]
    rfl
  rw [h.run_call, hnow, hrun]

theorem Quiet.run_openTask (h : w.Quiet c b s) (hb : b.concatEnabled = false) (sendAt : Instant) :
    ((Queue.openTask r sendAt).expand (Access.keyValue c).refine).run answer w =
      (.ok w.freshId.1, { w.freshId.2 with backing := .keyValue c (Server.writeAll w.clock.ms s
        (c.insertWrites b (Queue.opened r w.freshId.1 sendAt))).2 }) := by
  show (((Access.keyValue c).call (.insert (Queue.opened r w.freshId.1 sendAt))).bind _).run answer
    w.freshId.2 = _
  rw [Program.run_bind, h.freshId.run_insert hb (congrArg Instant.ms w.freshId_eq.1)]
  rfl

/-- **A request that is taken in** stands on the server as a task of its own. -/
theorem Quiet.enqueued (h : w.Quiet c b s) (hb : b.concatEnabled = false)
    (hconcat : q.config.concat.enabled = false) {id : TaskId}
    (he : w.performQueue (q.enqueue r) = (.ok id, w')) :
    ∃ s', w'.Quiet c b s' ∧ s'.Holds c.keys (Queue.opened r id (r.sendAt.getD w.clock)) := by
  rw [performQueue, perform, h.access_eq, Queue.enqueue_eq hconcat] at he
  have hopen : ∀ sendAt,
      ((Queue.openTask r sendAt).expand (Access.keyValue c).refine).run answer w = (.ok id, w') →
      ∃ s', w'.Quiet c b s' ∧ s'.Holds c.keys (Queue.opened r id sendAt) := by
    intro sendAt ho
    rw [h.run_openTask hb] at ho
    obtain ⟨hid, rfl⟩ := Prod.mk.inj ho
    obtain rfl := Except.ok.inj hid
    exact ⟨_, ⟨rfl, h.freshId.plan, h.bound, h.calm.writeAll _ _⟩,
      (Server.holds_insert hb s _ _).2⟩
  by_cases hbody : r.mail.hasBody = true
  · by_cases hvalid : r.mail.recipient.valid = true
    · simp only [hbody, hvalid] at he
      cases hr : r.sendAt with
      | none =>
        rw [hr] at he
        exact hopen w.clock he
      | some t =>
        rw [hr] at he
        exact hopen t he
    · simp only [hbody, hvalid] at he
      cases (Prod.mk.inj he).1
  · simp only [hbody] at he
    cases (Prod.mk.inj he).1

variable {t u : Task}

theorem run_cancel_eq (id : TaskId) :
    ((Queue.cancel id).expand (Access.keyValue c).refine).run answer w =
      (match (((Access.keyValue c).call (.cancel id)).run answer w).1 with
        | .ok cancelled => cancelled
        | .error _ => false, (((Access.keyValue c).call (.cancel id)).run answer w).2) := by
  show (((Access.keyValue c).call (.cancel id)).bind _).run answer w = _
  rw [Program.run_bind]
  generalize ((Access.keyValue c).call (.cancel id)).run answer w = x
  rcases x with ⟨e | cancelled, w'⟩ <;> rfl

/-- **A cancellation** of a task as it was inserted is made just when its letter can be read. -/
theorem Quiet.cancelled (h : w.Quiet c b s) (ht : s.Holds c.keys t) (hopen : t.isOpen = true)
    (hwords : t.transport < UInt64.size) :
    (w.performQueue (Queue.cancel t.id)).1 = (Task.ofLetter t.letter).isSome := by
  have hraw := Server.get?_of_entry ht.letter w.clock.ms
  rw [performQueue, perform, h.access_eq, run_cancel_eq, h.run_call]
  simp only [Client.answer, Client.whenBound, h.bound]
  rcases hu : Task.ofLetter t.letter with _ | u
  · rw [show Client.maxRounds = 7 + 1 from rfl, h.calm.run_update_unreadable hraw hu]
    rfl
  · have huopen : u.isOpen = true := by
      rw [Task.ofLetter_letter_eq hwords] at hu
      obtain ⟨ms, -, rfl⟩ := Option.map_eq_some_iff.1 hu
      exact hopen
    obtain ⟨d, hd⟩ : ∃ d, Client.cancelDecision b u = some d := by
      rw [Client.cancelDecision, huopen]
      cases b.keepHistory <;> exact ⟨_, rfl⟩
    rw [show Client.maxRounds = 7 + 1 from rfl, h.calm.run_update hraw hu hd]
    rfl

theorem Quiet.run_scout (h : w.Quiet c b s) (key : String) (now : Instant) :
    (w.perform (w.access.scout q now (.mark key))).1 =
      (match c.seen b s w.clock.ms key now with
        | .error _ => some (.done .skipped)
        | .ok found => found.map fun u => (q.process u).expand w.access.refine) := by
  have hlook : ((Access.keyValue c).call (.look key now)).run answer w =
      (c.seen b s w.clock.ms key now, w) :=
    Access.run_look h.bound h.answer_fault h.answer_get key now
  have hscout : (q.scout now (.mark key)).expand (Access.keyValue c).refine =
      ((Access.keyValue c).call (.look key now)).bind fun r =>
        (match r with
          | .error _ => Program.done (some (.done .skipped))
          | .ok none => .done none
          | .ok (some t) => .done (some (q.process t)) :
          Queue.Work (Option (Queue.Work TaskOutcome))).expand (Access.keyValue c).refine := by
    refine congrArg (Program.bind _) (funext fun r => ?_)
    rcases r with e | _ | t <;> rfl
  rw [perform, h.access_eq, Access.scout, hscout, Program.bind_assoc, Program.run_bind, hlook]
  rcases c.seen b s w.clock.ms key now with e | _ | u <;> rfl

/-- What a tick that sends finds to be due. -/
theorem Quiet.run_dueNow (h : w.Quiet c b s) (hq : q.config.mode.isConsumer = true) {clock : Int}
    {rs : Replies} (hl : Lists s clock c.keys.markPattern rs) :
    (q.dueNow.expand w.access.refine).run answerListing (rs, w) =
      (some (w.clock, (Client.marksOf rs).map .mark), ([], w)) := by
  have hdue : q.dueNow.expand (Access.keyValue c).refine =
      Program.bind (ask .now) fun now => ((Access.keyValue c).call (.due now)).bind fun r =>
        (match r with
          | .error _ => Program.done none
          | .ok due => .done (some (now, due)) :
          Queue.Work (Option (Instant × List Store.Due))).expand (Access.keyValue c).refine := by
    rw [Queue.dueNow, hq]
    rfl
  rw [h.access_eq, hdue]
  show (((Access.keyValue c).call (.due w.clock)).bind _).run answerListing (rs, w) = _
  rw [Program.run_bind, h.run_call_due hl]
  rfl

end Rehearsal.World

/-! ### What an acknowledged identifier is good for -/

namespace Rehearsal

variable {w w' : World} {q : Queue} {c : Client} {s : Server} {r : Request} {t : Task}

/-- The task stands as it was inserted, and nothing is planned to go wrong. -/
def Untouched (q : Queue) (c : Client) (t : Task) (v : World) (s : Server) : Prop :=
  v.Quiet c (Queue.binding q.config) s ∧ s.Holds c.keys t

/-- The tick of a queue lists the mark of the task if the mark matches the pattern of its scope. -/
def Listed (q : Queue) (c : Client) (t : Task) : Prop :=
  ∀ (v : World) (s : Server) (rs : Replies), Untouched q c t v s →
    Lists s v.clock.ms c.keys.markPattern rs →
    ∃ due, (q.dueNow.expand v.access.refine).run answerListing (rs, v) =
        (some (v.clock, due), ([], v)) ∧
      (.mark (c.keys.mark t.id) ∈ due ↔
        Matches c.keys.markPattern.toList (c.keys.mark t.id).toList)

/-- What a tick of this time finds behind the mark of the task. -/
def behindMark (q : Queue) (c : Client) (t : Task) (v : World) (now : Instant) :
    Option (Work TaskOutcome) :=
  (v.perform (v.access.scout q now (.mark (c.keys.mark t.id)))).1

/-- The letter can be read, and as long as the task is untouched, a cancellation is made and a tick
that comes to its mark goes to work on it. -/
structure Usable (q : Queue) (c : Client) (t : Task) : Prop where
  read : ∃ u, Task.ofLetter t.letter = some u
  cancelled : ∀ (v : World) (s : Server), Untouched q c t v s →
    (v.performQueue (Queue.cancel t.id)).1 = true
  examined : ∀ (v : World) (s : Server) (now : Instant), Untouched q c t v s → t.sendAt ≤ now →
    ∃ u, Task.ofLetter t.letter = some u ∧ u.id = t.id ∧
      behindMark q c t v now = some ((q.process u).expand v.access.refine)

/-- The letter cannot be read, and as long as the task is untouched, no cancellation is made and
each tick that comes to its mark skips it. -/
structure Unusable (q : Queue) (c : Client) (t : Task) : Prop where
  unread : Task.ofLetter t.letter = none
  kept : ∀ (v : World) (s : Server), Untouched q c t v s →
    (v.performQueue (Queue.cancel t.id)).1 = false
  skipped : ∀ (v : World) (s : Server) (now : Instant), Untouched q c t v s → t.sendAt ≤ now →
    behindMark q c t v now = some (.done .skipped)

section

variable (hopen : t.isOpen = true) (hwords : t.transport < UInt64.size)
  (hleft : t.attempts < q.config.maxAttempts)

include hopen hwords hleft

theorem usable_of_read {u : Task} (hu : Task.ofLetter t.letter = some u) : Usable q c t where
  read := ⟨u, hu⟩
  cancelled v s h := by rw [h.1.cancelled h.2 hopen hwords, hu, Option.isSome_some]
  examined v s now h hnow := by
    have hid : u.id = t.id := by
      rw [Task.ofLetter_letter_eq hwords] at hu
      obtain ⟨ms, -, rfl⟩ := Option.map_eq_some_iff.1 hu
      rfl
    refine ⟨u, hu, hid, ?_⟩
    rw [behindMark, h.1.run_scout, h.2.seen_mark hopen hwords hleft hnow, hu]
    rfl

theorem unusable_of_unread (hu : Task.ofLetter t.letter = none) : Unusable q c t where
  unread := hu
  kept v s h := by rw [h.1.cancelled h.2 hopen hwords, hu, Option.isSome_none]
  skipped v s now h hnow := by
    rw [behindMark, h.1.run_scout, h.2.seen_mark hopen hwords hleft hnow, hu]

end

theorem listed (hq : q.config.mode.isConsumer = true) : Listed q c t := by
  intro v s rs h hl
  refine ⟨_, h.1.run_dueNow hq hl, ?_⟩
  have hmem : Store.Due.mark (c.keys.mark t.id) ∈ (Client.marksOf rs).map Store.Due.mark ↔
      c.keys.mark t.id ∈ Client.marksOf rs := by simp
  rw [hmem, Client.mem_marksOf]
  constructor
  · rintro ⟨p, hp, hk⟩
    exact hl.sound p hp _ hk
  · refine hl.complete _ ?_
    rw [Server.get?_of_entry h.2.mark]
    rfl

/-- **An acknowledged identifier is usable** just when the mail is readable: a request may be taken
in whose letter is never read again. -/
theorem acknowledged (hc : q.config.validate = .ok ()) (hconcat : q.config.concat.enabled = false)
    (hw : w.Quiet c (Queue.binding q.config) s) (hl : Value.LawfulEntries r.mail.extra.entries)
    {id : TaskId} (he : w.performQueue (q.enqueue r) = (.ok id, w')) :
    ∃ t s', t = Queue.opened r id (r.sendAt.getD w.clock) ∧ Untouched q c t w' s' ∧
      (r.mail.Readable → Usable q c t) ∧ (¬r.mail.Readable → Unusable q c t) ∧
      (q.config.mode.isConsumer = true → Listed q c t) := by
  obtain ⟨s', hw', hs'⟩ := hw.enqueued hconcat hconcat he
  have hleft := Config.maxAttempts_pos_of_validate hc
  have hwords : 0 < UInt64.size := by decide
  have hread := Task.isSome_ofLetter_iff (t := Queue.opened r id (r.sendAt.getD w.clock)) hwords
    (by simpa [Queue.opened, Task.new] using hl)
  rw [show (∀ m ∈ (Queue.opened r id (r.sendAt.getD w.clock)).fragments, m.Readable) ↔
    r.mail.Readable by simp [Queue.opened, Task.new]] at hread
  refine ⟨_, s', rfl, ⟨hw', hs'⟩, fun hm => ?_, fun hm => ?_, listed⟩
  · obtain ⟨u, hu⟩ := Option.isSome_iff_exists.1 (hread.2 hm)
    exact usable_of_read rfl hwords hleft hu
  · rw [← hread, Option.not_isSome_iff_eq_none] at hm
    exact unusable_of_unread rfl hwords hleft hm

/-- A queue with the settings that are the default. -/
def standard : Queue := Queue.wire {} [⟨"smtp", none⟩] none

def standardClient : Client := ⟨⟨"default"⟩, some (Queue.binding standard.config)⟩

def standardWorld : World := { clock := .epoch, backing := .keyValue standardClient {} }

def noteWith (key : String) (value : Value) : Request :=
  .ofMail ({ Mail.new (.one "a@x.com") with text := some "one" }.field key value)

theorem readable_cc : (noteWith "cc" (.text "two")).mail.Readable where
  recipient := by decide
  texts e he v hv := by
    have hnone : (noteWith "cc" (.text "two")).mail.extra.get? e.1 = none := by
      simp only [Mail.texts, List.mem_cons, List.not_mem_nil, or_false] at he
      rcases he with rfl | rfl | rfl | rfl <;> rfl
    rw [hnone] at hv
    cases hv
  depth := Nat.zero_le _
  legible := ⟨trivial, trivial⟩

theorem not_readable_text : ¬(noteWith "text" (.text "two")).mail.Readable := fun h =>
  nomatch (h.texts ("text", some "one") (by decide) (.text "two") rfl).1

theorem acknowledged_noteWith : (∃ w' s' t,
    standardWorld.performQueue (standard.enqueue (noteWith "text" (.text "two"))) =
      (.ok (.ofNat 1), w') ∧ Untouched standard standardClient t w' s' ∧
      Unusable standard standardClient t ∧ (w'.performQueue (Queue.cancel t.id)).1 = false) ∧
    ∃ w' s' t, standardWorld.performQueue (standard.enqueue (noteWith "cc" (.text "two"))) =
      (.ok (.ofNat 1), w') ∧ Untouched standard standardClient t w' s' ∧
      Usable standard standardClient t ∧ (w'.performQueue (Queue.cancel t.id)).1 = true := by
  have hc : standard.config.validate = .ok () := by rfl
  have hw : standardWorld.Quiet standardClient (Queue.binding standard.config) {} :=
    ⟨rfl, rfl, rfl, rfl, rfl⟩
  have he : ∀ key, ∃ w',
      standardWorld.performQueue (standard.enqueue (noteWith key (.text "two"))) =
        (.ok (.ofNat 1), w') := fun key => ⟨_, Prod.ext rfl rfl⟩
  constructor
  · obtain ⟨w', he⟩ := he "text"
    obtain ⟨t, s', -, ht, -, hno, -⟩ :=
      acknowledged (r := noteWith "text" (.text "two")) hc rfl hw ⟨trivial, trivial⟩ he
    have hun := hno not_readable_text
    exact ⟨_, s', t, he, ht, hun, hun.kept _ s' ht⟩
  · obtain ⟨w', he⟩ := he "cc"
    obtain ⟨t, s', -, ht, hyes, -, -⟩ :=
      acknowledged (r := noteWith "cc" (.text "two")) hc rfl hw ⟨trivial, trivial⟩ he
    have hus := hyes readable_cc
    exact ⟨_, s', t, he, ht, hus, hus.cancelled _ s' ht⟩

end Rehearsal

end MailQueue

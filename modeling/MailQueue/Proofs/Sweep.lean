import MailQueue.Proofs.Fleet.Play
import MailQueue.Proofs.Fleet.Replay
import Mathlib.Data.List.Nodup

/-!
# A tick that runs alone

Everything that is due is worked on side by side, in any order and any number at a time. If the
time stands still meanwhile, the store does not fail, and what comes of a message depends on the
transport and the message alone, then what the tick leaves of each task depends on that task alone.

* `Sweep.reply` answers the questions of such a tick, and `Sweep.rules` are the rules by which it
  goes through a list;
* `Sweep.image` is what is left of a task;
* `OnTrack` says how far the work on a task can have come, `OnTrack.step` what one answer does;
* `Sweep.sequential`: the tasks can be worked on one after the other;
* `Sweep.swept` shows of each order what is stored in the end.
-/

namespace MailQueue

open Queue Interleaving

/-- A tick that runs alone at an instant, with what transports make of messages. -/
structure Sweep where
  queue : Queue
  now : Instant
  outcome : Nat → Mail → SendOutcome
  /-- The transport whose turn it was last, which matters to the balancer only. -/
  cursor : Nat := 0

namespace Sweep

variable (w : Sweep)

/-- How a question is answered. A tick asks for no identifier. -/
def reply : (a : Ask) → Memory → a.Answer × Memory
  | .now, m => (w.now, m)
  | .freshId, m => (.ofNat 0, m)
  | .store c, m => m.answer c
  | .pick stored, m => ((w.queue.pool.select w.cursor stored).1, m)
  | .send index message, m => (w.outcome index message, m)
  | .tell _, m => ((), m)

def due (m : Memory) : List Task := m.dueTasks (Queue.binding w.queue.config) w.now

/-- The tasks of a list are worked on in any order, any number of them at a time, each of them
once. -/
def rules (due : List Task) :
    Rules Ask Ask.Answer (Fin due.length) (fun _ => TaskOutcome) Memory where
  work p := w.queue.process (due.get p)
  starts s p x := x = s.shared ∧ ∀ th ∈ s.threads, th.job ≠ p
  answers _ a m x m' := x = (w.reply a m).1 ∧ m' = (w.reply a m).2
  moves _ _ := False

abbrev State (due : List Task) :=
  Interleaving.State Ask Ask.Answer (Fin due.length) (fun _ => TaskOutcome) Memory

/-- The work on each task of the list has ended. -/
def Complete {due : List Task} (s : State due) : Prop :=
  (∀ p, ∃ th ∈ s.threads, th.job = p) ∧ ∀ th ∈ s.threads, ∃ o, th.work = .done o

def handled {due : List Task} (s : State due) : List Task := s.threads.map fun th => due.get th.job

/-! ### What is left of a task -/

/-- What comes of handing over a task that has been claimed. -/
def delivery (t : Task) : Except DeliveryError SendReport :=
  match w.queue.pool.get? t.transport with
  | none => .error (.noTransport t.transport)
  | some transport =>
    match w.queue.compiler.compile transport (claimed t) with
    | .error e => .error (.compile e)
    | .ok message => Attempt.verdict t.transport (w.outcome t.transport message)

/-- What the tick leaves of a due task. -/
def imageOfDue (t : Task) : Option Task :=
  match w.delivery t with
  | .ok _ =>
    if w.queue.config.keepHistory then some { t with attempts := t.attempts + 1, sent := true }
    else none
  | .error _ =>
    if w.queue.config.maxAttempts ≤ t.attempts + 1 then
      if w.queue.config.keepHistory then
        some { t with attempts := t.attempts + 1, sent := false, failed := true }
      else none
    else
      some { t with
        attempts := t.attempts + 1
        sendAt := w.queue.retry.retryAt w.now (t.attempts + 1)
        transport := w.queue.pool.afterFailure t.transport (t.attempts + 1) }

/-- What the tick leaves of a stored task. -/
def image (t : Task) : Option Task :=
  if t.isDue w.now w.queue.config.maxAttempts then w.imageOfDue t else some t

/-! ### The work on one task -/

/-- How far the work on a due task can have come. -/
inductive OnTrack (t : Task) : Attempt → Prop where
  | claiming : OnTrack t .claiming
  | picking : OnTrack t .picking
  | sending {message : Mail}
      (h : w.delivery t = Attempt.verdict t.transport (w.outcome t.transport message)) :
      OnTrack t (.sending t.transport message)
  | removing {r : SendReport} (h : w.delivery t = .ok r)
      (hk : w.queue.config.keepHistory = false) : OnTrack t (.removing r)
  | marking {e : DeliveryError} (h : w.delivery t = .error e)
      (hm : w.queue.config.maxAttempts ≤ t.attempts + 1)
      (hk : w.queue.config.keepHistory = true) : OnTrack t (.marking e)
  | dropping {e : DeliveryError} (h : w.delivery t = .error e)
      (hm : w.queue.config.maxAttempts ≤ t.attempts + 1)
      (hk : w.queue.config.keepHistory = false) : OnTrack t (.dropping e)
  | timing {e : DeliveryError} (h : w.delivery t = .error e)
      (hm : ¬ w.queue.config.maxAttempts ≤ t.attempts + 1) : OnTrack t (.timing t.transport e)
  | puttingBack {e : DeliveryError} (h : w.delivery t = .error e)
      (hm : ¬ w.queue.config.maxAttempts ≤ t.attempts + 1) :
      OnTrack t (.puttingBack (w.queue.retry.retryAt w.now (t.attempts + 1))
        (w.queue.pool.afterFailure t.transport (t.attempts + 1)) e)
  | telling {event : Event} {o : TaskOutcome} (ho : o ≠ .skipped) : OnTrack t (.telling event o)
  | finished {o : TaskOutcome} (ho : o ≠ .skipped) : OnTrack t (.finished o)

/-- What is stored of a due task when the work on it has come so far. -/
def stage (t : Task) (d : Attempt) : Option Task :=
  if d.took = false then some t
  else if d.pending then some (claimed t)
  else w.imageOfDue t

variable {w} {t : Task} {m : Memory} {d e : Attempt} {id : TaskId}

lemma attempts_of_due (h : t.isDue w.now w.queue.config.maxAttempts = true) :
    nextAttempt t.attempts = t.attempts + 1 := by
  have hlt := (Task.isDue_iff.1 h).2.2
  have hb := w.queue.config.maxAttempts.toNat_lt
  have h' := UInt32.lt_iff_toNat_lt.1 hlt
  refine if_neg fun he => ?_
  rw [he] at h'
  simp at h'
  omega

/-- The work goes on from the attempt to send as the settings say. -/
lemma onTrack_after (hn : nextAttempt t.attempts = t.attempts + 1) :
    OnTrack w t (Attempt.after w.queue t t.transport (w.delivery t)) ∧
      w.stage t (Attempt.after w.queue t t.transport (w.delivery t)) = some (claimed t) := by
  have hc : (claimed t).attempts = t.attempts + 1 := hn
  rcases hd : w.delivery t with e | r
  · simp only [Attempt.after, hc]
    by_cases hm : w.queue.config.maxAttempts ≤ t.attempts + 1
    · rw [if_pos hm]
      cases hk : w.queue.config.keepHistory with
      | true => exact ⟨.marking hd hm hk, rfl⟩
      | false => exact ⟨.dropping hd hm hk, rfl⟩
    · rw [if_neg hm]
      exact ⟨.timing hd hm, rfl⟩
  · simp only [Attempt.after]
    cases hk : w.queue.config.keepHistory with
    | true =>
      refine ⟨.telling (by simp), ?_⟩
      show w.imageOfDue t = _
      simp only [imageOfDue, hd, hk, if_true, claimed, hn]
    | false => exact ⟨.removing hd hk, rfl⟩

lemma onTrack_chosen (hn : nextAttempt t.attempts = t.attempts + 1) :
    OnTrack w t (Attempt.chosen w.queue t t.transport) ∧
      w.stage t (Attempt.chosen w.queue t t.transport) = some (claimed t) := by
  have hch : (∃ message, Attempt.chosen w.queue t t.transport = .sending t.transport message ∧
      w.delivery t = Attempt.verdict t.transport (w.outcome t.transport message)) ∨
      Attempt.chosen w.queue t t.transport =
        Attempt.after w.queue t t.transport (w.delivery t) := by
    unfold Attempt.chosen delivery
    rcases w.queue.pool.get? t.transport with _ | transport
    · exact .inr rfl
    · simp only
      rcases w.queue.compiler.compile transport (claimed t) with e | message
      · exact .inr rfl
      · exact .inl ⟨message, rfl, rfl⟩
  rcases hch with ⟨message, hch, hdel⟩ | hch <;> rw [hch]
  · exact ⟨.sending hdel, rfl⟩
  · exact onTrack_after hn

lemma get?_reply (hb : m.binding = some (Queue.binding w.queue.config)) (id : TaskId) (a : Ask) :
    (w.reply a m).2.get? id =
      Fleet.effect w.queue.config.keepHistory id ⟨a, (w.reply a m).1⟩ (m.get? id) := by
  cases a with
  | store c => exact Memory.get?_answer hb c id
  | _ => rfl

lemma mutate_reply {p : Patch} {u : Task} (hu : m.get? t.id = some u) (hp : p.guardHolds u = true) :
    (w.reply (.store (.mutate t.id p)) m).1 = .ok true := by
  show Except.ok (m.mutate t.id p).1 = _
  rw [Memory.mutate_of_guardHolds hu hp]

lemma get?_reply_mutate {p : Patch} {u : Task} (hu : m.get? t.id = some u)
    (hp : p.guardHolds u = true) :
    (w.reply (.store (.mutate t.id p)) m).2.get? t.id = some (p.apply u) := by
  show (m.mutate t.id p).2.get? t.id = _
  have hid : (p.apply u).id = t.id := (p.apply_id u).trans (Memory.id_of_get? hu)
  rw [Memory.mutate_of_guardHolds hu hp, Memory.get?_put_of_id hu hid, if_pos rfl]

lemma get?_reply_delete : (w.reply (.store (.delete t.id)) m).2.get? t.id = none :=
  (m.get?_erase t.id t.id).trans (if_pos rfl)

/-- The last write to a task that has been claimed leaves what the tick leaves of it. -/
lemma OnTrack.write (hdue : t.isDue w.now w.queue.config.maxAttempts = true) (h : OnTrack w t d)
    (hm : m.get? t.id = some (claimed t)) {c : Store.Call} {x : c.Answer}
    (adv : Attempt.Advance w.queue t d (.store c) x e) (hd : d ≠ .claiming) :
    OnTrack w t e ∧ (w.reply (.store c) m).2.get? t.id = w.imageOfDue t := by
  have hn := attempts_of_due hdue
  cases adv with
  | lost | claimed => exact absurd rfl hd
  | removed r answer =>
    cases h with
    | removing hdel hk =>
      refine ⟨.telling (by simp), get?_reply_delete.trans ?_⟩
      simp [imageOfDue, hdel, hk]
  | marked e answer =>
    cases h with
    | marking hdel hmax hk =>
      refine ⟨.telling (by simp), (get?_reply_mutate hm rfl).trans ?_⟩
      simp [imageOfDue, hdel, hmax, hk, Patch.fail, Patch.apply, claimed, hn]
  | dropped e answer =>
    cases h with
    | dropping hdel hmax hk =>
      refine ⟨.telling (by simp), get?_reply_delete.trans ?_⟩
      simp [imageOfDue, hdel, hmax, hk]
  | putBack retryAt transport e answer =>
    cases h with
    | puttingBack hdel hmax =>
      have hsent : t.sent = false := (Task.isOpen_iff.1 (Task.isDue_iff.1 hdue).1).1
      refine ⟨.telling (by simp), (get?_reply_mutate hm rfl).trans ?_⟩
      simp [imageOfDue, hdel, hmax, Patch.reschedule, Patch.apply, claimed, hn, hsent]

/-- **One answer** to the work on a due task. -/
lemma OnTrack.step (hs : w.queue.pool.strategy = .backup)
    (hdue : t.isDue w.now w.queue.config.maxAttempts = true) (h : OnTrack w t d)
    (hm : m.get? t.id = w.stage t d) {a : Ask}
    (adv : Attempt.Advance w.queue t d a (w.reply a m).1 e) :
    OnTrack w t e ∧ (w.reply a m).2.get? t.id = w.stage t e := by
  have hn := attempts_of_due hdue
  generalize hx : (w.reply a m).1 = x at adv
  have hadv := adv
  cases adv with
  | lost hne =>
    refine absurd (hx.symm.trans (mutate_reply hm ?_)) hne
    simp [Patch.claim, Patch.guardHolds, Guard.holds, (Task.isDue_iff.1 hdue).1]
  | claimed =>
    refine ⟨.picking, (get?_reply_mutate hm ?_).trans ?_⟩
    · simp [Patch.claim, Patch.guardHolds, Guard.holds, (Task.isDue_iff.1 hdue).1]
    · simp [stage, Attempt.took, Attempt.pending, Patch.claim, Patch.apply, claimed]
  | picked index =>
    have hindex : index = t.transport := by
      rw [← hx]
      simp [reply, TransportPool.select, hs]
    subst hindex
    obtain ⟨hchosen, hstage⟩ := onTrack_chosen (w := w) hn
    exact ⟨hchosen, hm.trans hstage.symm⟩
  | sent index message o =>
    cases h with
    | sending hdel =>
      have ho : o = w.outcome t.transport message := hx.symm
      have hafter := onTrack_after (w := w) hn
      rw [hdel, ← ho] at hafter
      exact ⟨hafter.1, hm.trans hafter.2.symm⟩
  | timed index e now =>
    cases h with
    | timing hdel hmax =>
      have hnow : now = w.now := hx.symm
      have hc : (claimed t).attempts = t.attempts + 1 := hn
      rw [hnow, hc]
      exact ⟨.puttingBack hdel hmax, hm⟩
  | told event o =>
    cases h with
    | telling ho =>
      refine ⟨.finished ho, hm.trans ?_⟩
      cases o <;> rfl
  | removed | marked | dropped | putBack => exact h.write hdue hm hadv (by simp)

/-! ### The jobs side by side -/

/-- The tasks of a list stand in the store and are due, no identifier twice. -/
structure Listed (w : Sweep) (m : Memory) (due : List Task) : Prop where
  bound : m.binding = some (Queue.binding w.queue.config)
  distinct : m.Distinct
  stored : ∀ p, m.get? (due.get p).id = some (due.get p)
  isDue : ∀ p, (due.get p).isDue w.now w.queue.config.maxAttempts = true
  apart : ∀ p p', (due.get p).id = (due.get p').id → p = p'

/-- What holds throughout: each job is on its way, and what it has written is all that was. -/
structure Going (w : Sweep) (m : Memory) {due : List Task} (s : State due) : Prop where
  bound : s.shared.binding = some (Queue.binding w.queue.config)
  distinct : s.shared.Distinct
  once : (s.threads.map Thread.job).Nodup
  onTrack : ∀ th ∈ s.threads, ∃ d, th.work = d.work w.queue (due.get th.job) ∧
    OnTrack w (due.get th.job) d ∧
    s.shared.get? (due.get th.job).id = w.stage (due.get th.job) d
  rest : ∀ id, (∀ th ∈ s.threads, (due.get th.job).id ≠ id) → s.shared.get? id = m.get? id

section Runs

variable {due : List Task} {s s' : State due}

lemma going_first (hl : Listed w m due) : Going w m ({ shared := m } : State due) :=
  ⟨hl.bound, hl.distinct, by simp, by simp, fun _ _ => rfl⟩

lemma Going.started (hl : Listed w m due) (g : Going w m s) {p : Fin due.length}
    (hp : ∀ th ∈ s.threads, th.job ≠ p) : Going w m (s.started (w.rules due) p s.shared) := by
  have hopen := (Task.isDue_iff.1 (hl.isDue p)).1
  refine ⟨g.bound, g.distinct, ?_, fun th hth => ?_, fun id hid => ?_⟩
  · rw [State.started, List.map_append]
    refine List.nodup_append.2 ⟨g.once, by simp, fun q hq q' hq' => ?_⟩
    obtain ⟨th, hth, rfl⟩ := List.mem_map.1 hq
    rw [List.mem_singleton.1 hq']
    exact hp th hth
  · rcases List.mem_append.1 hth with hth | hth
    · exact g.onTrack th hth
    · obtain rfl := List.mem_singleton.1 hth
      refine ⟨.claiming, ?_, .claiming, ?_⟩
      · have hbegin : Attempt.begin (due.get p) = .claiming := if_pos hopen
        rw [← hbegin]
        exact Attempt.work_begin.symm
      · refine (g.rest _ fun th hth he => hp th hth (hl.apart _ _ he)).trans ?_
        exact hl.stored p
  · exact g.rest id fun th hth => hid th (List.mem_append_left _ hth)

lemma Going.answered (hs : w.queue.pool.strategy = .backup) (hl : Listed w m due)
    (g : Going w m s) {n : Nat} {p : Fin due.length} {a : Ask} {next : a.Answer → Work TaskOutcome}
    (asks : s.threads[n]? = some ⟨p, .ask a next⟩) :
    Going w m (s.answered n p a (w.reply a s.shared).1 next (w.reply a s.shared).2) := by
  have hlt := (List.getElem?_eq_some_iff.1 asks).1
  obtain ⟨d, hw, hd, hstage⟩ := g.onTrack _ (List.mem_of_getElem? asks)
  obtain ⟨e, adv, hnext⟩ := Attempt.follow hw.symm (w.reply a s.shared).1
  obtain ⟨he, hstage'⟩ := hd.step hs (hl.isDue p) hstage adv
  have hother : ∀ id, (due.get p).id ≠ id →
      (w.reply a s.shared).2.get? id = s.shared.get? id := fun id hid =>
    (get?_reply g.bound id a).trans (adv.leaves (.inr hid) _)
  have hjobs := jobs_answered (a := (w.reply a s.shared).1) (x := (w.reply a s.shared).2) asks
  refine ⟨?_, ?_, hjobs ▸ g.once, fun th hth => ?_, fun id hid => ?_⟩
  · cases a with
    | store c => exact (Memory.binding_answer c).trans g.bound
    | _ => exact g.bound
  · cases a with
    | store c => exact Memory.distinct_answer g.bound g.distinct c
    | _ => exact g.distinct
  · obtain ⟨k, hk⟩ := List.getElem?_of_mem hth
    rcases getElem?_answered hlt hk with ⟨rfl, rfl⟩ | ⟨hne, hk⟩
    · exact ⟨e, hnext, he, hstage'⟩
    · obtain ⟨d', hw', hd', hst⟩ := g.onTrack th (List.mem_of_getElem? hk)
      refine ⟨d', hw', hd', (hother _ fun hid => hne ?_).trans hst⟩
      -- two jobs of one task would be one job
      refine (List.getElem?_inj (by simpa using hlt) g.once).1 ?_
      rw [List.getElem?_map, List.getElem?_map, asks, hk]
      exact congrArg some (hl.apart _ _ hid)
  · have hjob : ∀ q ∈ s.threads.map Thread.job, (due.get q).id ≠ id := by
      rw [← hjobs]
      intro q hq
      obtain ⟨th, hth, rfl⟩ := List.mem_map.1 hq
      exact hid th hth
    refine (hother id (hjob p (List.mem_map.2 ⟨_, List.mem_of_getElem? asks, rfl⟩))).trans ?_
    exact g.rest id fun th hth => hjob th.job (List.mem_map_of_mem hth)

/-- **The jobs side by side**, whatever the order. -/
lemma going (hs : w.queue.pool.strategy = .backup) (hl : Listed w m due)
    (h : Run (w.rules due) { shared := m } s) : Going w m s := by
  refine h.keeps (going_first hl) fun _ g step => ?_
  cases step with
  | move hm => exact hm.elim
  | start hst =>
    obtain ⟨rfl, hp⟩ := hst
    exact g.started hl hp
  | answer asks ha =>
    obtain ⟨rfl, rfl⟩ := ha
    exact g.answered hs hl asks

/-! ### The end -/

/-- What a tick has left of a store, task by task. -/
structure Left (w : Sweep) (m m' : Memory) : Prop where
  distinct : m'.Distinct
  image : ∀ id, m'.get? id = (m.get? id).bind w.image

/-- All tasks that are due are listed. -/
def Exhaustive (w : Sweep) (m : Memory) (due : List Task) : Prop :=
  ∀ id t, m.get? id = some t → t.isDue w.now w.queue.config.maxAttempts = true →
    ∃ p, due.get p = t

lemma Going.left (hl : Listed w m due) (hall : Exhaustive w m due) (g : Going w m s)
    (hc : Complete s) : Left w m s.shared := by
  refine ⟨g.distinct, fun id => ?_⟩
  by_cases hid : ∃ th ∈ s.threads, (due.get th.job).id = id
  · obtain ⟨th, hth, rfl⟩ := hid
    obtain ⟨d, hw, hd, hst⟩ := g.onTrack th hth
    obtain ⟨o, ho⟩ := hc.2 th hth
    rw [hst, hl.stored, Option.bind_some, Sweep.image, if_pos (hl.isDue _)]
    rw [hw] at ho
    cases hd with
    | finished hne => cases o <;> cases ho <;> first | rfl | exact absurd rfl hne
    | _ => cases ho
  · have hid' : ∀ th ∈ s.threads, (due.get th.job).id ≠ id := fun th hth he => hid ⟨th, hth, he⟩
    rw [g.rest id hid']
    rcases hu : m.get? id with _ | u
    · rfl
    · rw [Option.bind_some, Sweep.image, if_neg]
      intro hdue
      obtain ⟨p, rfl⟩ := hall id u hu hdue
      obtain ⟨th, hth, rfl⟩ := hc.1 p
      exact hid' th hth (Memory.id_of_get? hu)

/-- Each task of the list was worked on, and once. -/
lemma Going.handled (g : Going w m s) (hc : Complete s) : (handled s).Perm due := by
  have hperm : (s.threads.map Thread.job).Perm (List.finRange due.length) := by
    refine (List.perm_ext_iff_of_nodup g.once (List.nodup_finRange _)).2 fun p => ?_
    obtain ⟨th, hth, rfl⟩ := hc.1 p
    simpa using ⟨th, hth, rfl⟩
  have h := hperm.map due.get
  rw [List.map_map, List.map_get_finRange] at h
  exact h

/-! ### One after the other -/

lemma finish {n : Nat} {p : Fin due.length} {work : Work TaskOutcome}
    (hn : s.threads[n]? = some ⟨p, work⟩) : ∃ s', Run (w.rules due) s s' ∧
      s'.shared = (work.run w.reply s.shared).2 ∧
      s'.threads = s.threads.set n ⟨p, .done (work.run w.reply s.shared).1⟩ :=
  exists_run_done (R := w.rules due) w.reply (fun _ _ _ => ⟨rfl, rfl⟩) hn

/-- **The tasks can be worked on one after the other**, and that is what the tick of a queue
does. -/
lemma sequential (r : TickReport) (ps : List (Fin due.length)) (hps : ps.Nodup)
    (hnew : ∀ p ∈ ps, ∀ th ∈ s.threads, th.job ≠ p) :
    ∃ s' l, Run (w.rules due) s s' ∧ s'.threads = s.threads ++ l ∧ l.map Thread.job = ps ∧
      (∀ th ∈ l, ∃ o, th.work = .done o) ∧
      ∃ r', (w.queue.processAll w.now r (ps.map fun p => .task (due.get p))).run w.reply s.shared =
        (r', s'.shared) ∧ r'.examined = r.examined + ps.length := by
  induction ps generalizing s r with
  | nil => exact ⟨s, [], .refl, by simp, rfl, by simp, r, rfl, rfl⟩
  | cons p ps ih =>
    obtain ⟨hp, hps⟩ := List.nodup_cons.1 hps
    have step : Step (w.rules due) s (s.started (w.rules due) p s.shared) :=
      .start ⟨rfl, hnew p (List.mem_cons_self ..)⟩
    have hlast : (s.started (w.rules due) p s.shared).threads[s.threads.length]? =
        some ⟨p, w.queue.process (due.get p)⟩ := by simp [State.started, rules]
    obtain ⟨s₁, hrun₁, hshared₁, hthreads₁⟩ := finish (w := w) hlast
    have hset : s₁.threads = s.threads ++
        [⟨p, .done ((w.queue.process (due.get p)).run w.reply s.shared).1⟩] := by
      rw [hthreads₁, State.started, List.set_append_right _ _ (Nat.le_refl _)]
      simp
    obtain ⟨s', l, hrun, hthreads, hjobs, hdone, r', hres, hex⟩ :=
      ih (r.absorb ((w.queue.process (due.get p)).run w.reply s.shared).1) hps (s := s₁)
        (fun p' hp' th hth => by
          rw [hset] at hth
          rcases List.mem_append.1 hth with hth | hth
          · exact hnew p' (List.mem_cons_of_mem _ hp') th hth
          · rw [List.mem_singleton.1 hth]
            rintro rfl
            exact hp hp')
    refine ⟨s', ⟨p, .done ((w.queue.process (due.get p)).run w.reply s.shared).1⟩ :: l,
      ((Run.refl.snoc step).trans hrun₁).trans hrun, ?_, ?_, ?_, r', ?_, ?_⟩
    · rw [hthreads, hset, List.append_assoc]
      rfl
    · rw [List.map_cons, hjobs]
    · intro th hth
      rcases List.mem_cons.1 hth with rfl | hth
      · exact ⟨_, rfl⟩
      · exact hdone th hth
    · rw [List.map_cons, run_processAll_of_some r _ rfl, ← hres, hshared₁]
      rfl
    · rw [hex, List.length_cons, TickReport.examined_absorb]
      omega

lemma finish_all (k : Nat) : ∃ s', Run (w.rules due) s s' ∧
    s'.threads.map Thread.job = s.threads.map Thread.job ∧
    ∀ n < k, ∀ th, s'.threads[n]? = some th → ∃ o, th.work = .done o := by
  induction k with
  | zero => exact ⟨s, .refl, rfl, by simp⟩
  | succ k ih =>
    obtain ⟨s₁, hrun₁, hjobs₁, hdone₁⟩ := ih
    rcases hk : s₁.threads[k]? with _ | ⟨p, work⟩
    · refine ⟨s₁, hrun₁, hjobs₁, fun n hn th hth => ?_⟩
      rcases Nat.lt_succ_iff_lt_or_eq.1 hn with hn | rfl
      · exact hdone₁ n hn th hth
      · cases hk.symm.trans hth
    · obtain ⟨s', hrun, -, hthreads⟩ := finish (w := w) hk
      have hlt := (List.getElem?_eq_some_iff.1 hk).1
      refine ⟨s', hrun₁.trans hrun, ?_, fun n hn th hth => ?_⟩
      · rw [hthreads, ← hjobs₁, List.map_set]
        refine List.ext_getElem? fun i => ?_
        rcases eq_or_ne k i with rfl | hne
        · rw [List.getElem?_set_self (by simpa using hlt), List.getElem?_map, hk]
          rfl
        · rw [List.getElem?_set_ne hne]
      · rw [hthreads] at hth
        rcases eq_or_ne k n with rfl | hne
        · rw [List.getElem?_set_self hlt] at hth
          rw [← Option.some.inj hth]
          exact ⟨_, rfl⟩
        · rw [List.getElem?_set_ne hne] at hth
          exact hdone₁ n (by omega) th hth

/-- **However far a tick has come, it can come to its end.** -/
lemma completes (w : Sweep) (s : State due) : ∃ s', Run (w.rules due) s s' ∧ Complete s' := by
  obtain ⟨s₁, hrun₁, hjobs₁, hdone₁⟩ := finish_all (w := w) (s := s) s.threads.length
  have hlen : s₁.threads.length = s.threads.length := by simpa using congrArg List.length hjobs₁
  obtain ⟨s', l, hrun, hthreads, hjobs, hdone, -⟩ := sequential (w := w) (s := s₁) {}
    ((List.finRange due.length).filter fun p => decide (p ∉ s₁.threads.map Thread.job))
    ((List.nodup_finRange _).filter _) (by
      intro p hp th hth he
      simp only [List.mem_filter, decide_eq_true_eq] at hp
      exact hp.2 (List.mem_map.2 ⟨th, hth, he⟩))
  refine ⟨s', hrun₁.trans hrun, fun p => ?_, fun th hth => ?_⟩
  · rw [hthreads]
    by_cases hp : p ∈ s₁.threads.map Thread.job
    · obtain ⟨th, hth, he⟩ := List.mem_map.1 hp
      exact ⟨th, List.mem_append_left _ hth, he⟩
    · have hm : p ∈ l.map Thread.job := by
        rw [hjobs]
        simpa using hp
      obtain ⟨th, hth, he⟩ := List.mem_map.1 hm
      exact ⟨th, List.mem_append_right _ hth, he⟩
  · rw [hthreads] at hth
    rcases List.mem_append.1 hth with hth | hth
    · obtain ⟨n, hn⟩ := List.getElem?_of_mem hth
      exact hdone₁ n (hlen ▸ (List.getElem?_eq_some_iff.1 hn).1) th hn
    · exact hdone th hth

end Runs

/-! ### The whole tick -/

/-- What a tick makes of a store. -/
structure Swept (w : Sweep) (m : Memory) : Prop where
  /-- The tick lists the tasks that are due, and nothing else. -/
  listed : w.queue.dueNow.run w.reply m = (some (w.now, (w.due m).map .task), m) ∧
    (w.due m).Perm (m.tasks.filter fun t => t.isDue w.now w.queue.config.maxAttempts)
  /-- However far it has come, it can come to its end. -/
  completes : ∀ s : State (w.due m), Run (w.rules (w.due m)) { shared := m } s →
    ∃ s', Run (w.rules (w.due m)) s s' ∧ Complete s'
  /-- At the end each task that was due has been worked on once, and of each stored task there is
  left what it alone decides. -/
  left : ∀ s : State (w.due m), Run (w.rules (w.due m)) { shared := m } s → Complete s →
    (handled s).Perm (m.tasks.filter fun t => t.isDue w.now w.queue.config.maxAttempts) ∧
      Left w m s.shared
  /-- So it is if the tasks are worked on one after the other. -/
  tick : Left w m (w.queue.tick.run w.reply m).2 ∧
    (w.queue.tick.run w.reply m).1.examined =
      (m.tasks.filter fun t => t.isDue w.now w.queue.config.maxAttempts).length

lemma perm_due (w : Sweep) (m : Memory) :
    (w.due m).Perm (m.tasks.filter fun t => t.isDue w.now w.queue.config.maxAttempts) :=
  List.mergeSort_perm _ _

lemma listed_due (hd : m.Distinct) (hb : m.binding = some (Queue.binding w.queue.config)) :
    Listed w m (w.due m) ∧ Exhaustive w m (w.due m) := by
  have hmem : ∀ t, t ∈ w.due m ↔
      t ∈ m.tasks ∧ t.isDue w.now w.queue.config.maxAttempts = true := fun t =>
    Memory.mem_dueTasks
  have hget : ∀ p, (w.due m).get p ∈ w.due m := fun p => List.get_mem _ p
  have hnodup : ((w.due m).map Task.id).Nodup :=
    ((w.perm_due m).map Task.id).nodup_iff.2 (hd.sublist (List.filter_sublist.map Task.id))
  refine ⟨⟨hb, hd, fun p => ?_, fun p => ((hmem _).1 (hget p)).2, fun p p' he => ?_⟩,
    fun id t ht hdue => ?_⟩
  · exact Memory.get?_of_mem hd ((hmem _).1 (hget p)).1
  · have hp : (w.due m).get p = (w.due m).get p' :=
      List.inj_on_of_nodup_map hnodup (hget p) (hget p') he
    exact List.nodup_iff_injective_get.1 hnodup.of_map hp
  · have ht' : t ∈ w.due m := (hmem t).2 ⟨List.mem_of_find?_eq_some ht, hdue⟩
    exact List.mem_iff_get.1 ht'

lemma run_dueNow (hc : w.queue.config.mode.isConsumer = true)
    (hb : m.binding = some (Queue.binding w.queue.config)) :
    w.queue.dueNow.run w.reply m = (some (w.now, (w.due m).map .task), m) := by
  have hanswer : m.answer (.due w.now) = (.ok ((w.due m).map .task), m) := by
    simp only [Memory.answer, Memory.whenBound, hb]
    rfl
  have hreply : w.reply (.store (.due w.now)) m = (.ok ((w.due m).map .task), m) := hanswer
  rw [run_dueNow_eq hc rfl, hreply]

/-- **A tick that runs alone** works on each task that is due once, in whatever order, and what it
leaves of a task depends on that task alone. -/
theorem swept (hc : w.queue.config.mode.isConsumer = true)
    (hs : w.queue.pool.strategy = .backup) (hd : m.Distinct)
    (hb : m.binding = some (Queue.binding w.queue.config)) : Swept w m := by
  obtain ⟨hl, hall⟩ := listed_due hd hb
  have hend : ∀ s : State (w.due m), Run (w.rules (w.due m)) { shared := m } s → Complete s →
      (handled s).Perm (m.tasks.filter fun t => t.isDue w.now w.queue.config.maxAttempts) ∧
        Left w m s.shared := fun s h hcomplete =>
    have g := going hs hl h
    ⟨(g.handled hcomplete).trans (w.perm_due m), g.left hl hall hcomplete⟩
  refine ⟨⟨run_dueNow hc hb, w.perm_due m⟩, fun s _ => completes w s, hend, ?_⟩
  -- the tick of the queue takes the tasks in the order of the list
  obtain ⟨s, l, hrun, hthreads, hjobs, hdone, r, hres, hex⟩ :=
    sequential (w := w) (s := ({ shared := m } : State (w.due m))) {}
      (List.finRange (w.due m).length) (List.nodup_finRange _) (by simp)
  have hall' : (List.finRange (w.due m).length).map
      (fun p => Store.Due.task ((w.due m).get p)) = (w.due m).map .task := by
    have h := congrArg (List.map Store.Due.task) (List.map_get_finRange (w.due m))
    rwa [List.map_map] at h
  rw [hall'] at hres
  have htick : w.queue.tick.run w.reply m = (r, s.shared) := by
    rw [← hres]
    refine (Program.run_bind w.reply w.queue.dueNow _ m).trans ?_
    rw [run_dueNow hc hb]
  have hcomplete : Complete s := by
    rw [List.nil_append] at hthreads
    refine ⟨fun p => ?_, hthreads ▸ hdone⟩
    have hp : p ∈ s.threads.map Thread.job := by rw [hthreads, hjobs]; simp
    exact List.mem_map.1 hp
  rw [htick]
  refine ⟨(hend s hrun hcomplete).2, ?_⟩
  rw [hex, List.length_finRange, (w.perm_due m).length_eq]
  exact Nat.zero_add _

def dated (n : Nat) (sendAt : Instant) (transport : Nat) (attempts : UInt32) : Task :=
  { Task.new (.ofNat n) { Mail.new (.one "a@x") with text := some "one" } sendAt with
    transport := transport, attempts := attempts }

/-- A queue whose second transport crashes. -/
def halfBroken : Sweep where
  queue := .wire { maxAttempts := 3, failsToNext := 1 } [⟨"smtp", none⟩, ⟨"relay", none⟩] none
  now := .epoch
  outcome index _ := if index = 0 then .report { accepted := ["a@x"] } else .crash "down"

/-- A task that is delivered, one that is put back, one that is given up and one that is not due. -/
def fourTasks : Memory where
  tasks := [dated 1 .epoch 0 0, dated 2 .epoch 1 0, dated 3 .epoch 1 2,
    dated 4 Fleet.minute 0 0]
  binding := some (Queue.binding halfBroken.queue.config)

theorem swept_fourTasks : halfBroken.queue.config.mode.isConsumer = true ∧
    halfBroken.queue.pool.strategy = .backup ∧ fourTasks.Distinct ∧
    fourTasks.binding = some (Queue.binding halfBroken.queue.config) ∧
    Swept halfBroken fourTasks ∧
    ([1, 2, 3, 4].map fun n =>
      ((halfBroken.queue.tick.run halfBroken.reply fourTasks).2.get? (.ofNat n)).map fun t =>
        (t.isOpen, t.attempts, t.transport)) =
      [none, some (true, 1, 0), none, some (true, 0, 0)] := by
  have hd : fourTasks.Distinct := by unfold Memory.Distinct; decide
  have hswept : Swept halfBroken fourTasks := swept rfl rfl hd rfl
  refine ⟨rfl, rfl, hd, rfl, hswept, ?_⟩
  simp only [hswept.tick.1.image]
  decide +kernel

end Sweep

end MailQueue

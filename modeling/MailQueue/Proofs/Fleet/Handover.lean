import MailQueue.Proofs.Fleet.Growth
import MailQueue.Proofs.Fleet.Play

/-!
# What a message carries

A message is compiled from the task as the tick has listed it, the claim is made later, and a
request may join the task in between. What was added in this window is in no message, and goes with
the task.

* `kept_since_claim`: from the claim of a task that ends well its mails stay;
* `carried`: a request that ends with an identifier has its mail among those of the task;
* `delivery` is the account of a task that a tick has sent: the message was compiled from the mails
  listed, and whatever else the task holds was added between the listing and the claim;
* `not_handsOverAll`: the window is not empty.
-/

namespace MailQueue.Fleet

open Queue Interleaving

variable {f : Fleet} {s t : State} {id : TaskId} {u v : Task} {pre post : List Entry} {c e : Entry}

/-! ### From the claim on -/

lemma Reachable.split (h : f.Reachable s) (hlog : s.log = pre ++ e :: post) (id : TaskId) :
    ∃ t next x, f.Reachable t ∧ t.log = pre ∧ t.shared = e.before ∧
      t.threads[e.thread]? = some ⟨e.job, .ask e.ask next⟩ ∧
      f.Answers e.job.queue t.shared e.ask e.answer x ∧
      Change f t e.thread e.job id e.exchange (x.store.get? id) ∧
      Run f.rules (t.answered e.thread e.job e.ask e.answer next x) s := by
  obtain ⟨clock, hr⟩ := h
  obtain ⟨t, next, x, ht, hrest⟩ := change_of_split hr rfl hlog id
  exact ⟨t, next, x, ⟨clock, ht⟩, hrest⟩

/-- After a good claim its worker has the task in hand, with the mails that it had. -/
lemma hand_of_claim {n : Nat} {j : Job} {q : Ask} {a : q.Answer} {x : Exchange} {o : Option Task}
    (ch : Change f s n j id x o) (he : (⟨n, j, q, a, s.shared⟩ : Entry).exchange = x)
    (hc : (claim? id x).isSome = true) (hu : stored s id = some u) :
    InHand (s.log ++ [⟨n, j, q, a, s.shared⟩]) n id ∧
      ∃ v, o = some v ∧ v.fragments = u.fragments := by
  obtain ⟨k, t, w, hp, -, hw, -, -, ho⟩ := ch.of_claim hc
  obtain rfl : u = w := Option.some.inj (hu.symm.trans hw)
  refine ⟨(inHand_append_self (e := ⟨n, j, q, a, s.shared⟩)).2 ?_, _, ho, rfl⟩
  rw [show pastIn s.log n = [] from hp, List.nil_append, he]
  refine ⟨⟨x, List.mem_singleton_self _, hc⟩, fun z hz => ?_⟩
  rw [List.mem_singleton.1 hz]
  exact not_resolves_of_claim hc

/-- While a worker has a task in hand the task is removed, or nothing becomes of its mails. -/
lemma hand_step (h : f.Reachable s) {k n : Nat} {j : Job} {q : Ask} {a : q.Answer} {x : Exchange}
    {o : Option Task} (ch : Change f s n j id x o)
    (he : (⟨n, j, q, a, s.shared⟩ : Entry).exchange = x) (hno : n = k → updates x = false)
    (hand : InHand s.log k id) (hv : stored s id = some v) :
    o = none ∨ InHand (s.log ++ [⟨n, j, q, a, s.shared⟩]) k id ∧
      ∃ w, o = some w ∧ w.fragments = v.fragments := by
  obtain ⟨clock, hr⟩ := h
  have ten := tenure (stock_first f clock) hr id
  cases ch with
  | still hc hres => exact .inr ⟨(inHand_append_of_quiet (he ▸ hc) (he ▸ hres)).2 hand, v, hv, rfl⟩
  | born _ _ hn =>
    rw [hn] at hv
    cases hv
  | joined _ _ _ hu hopen | withdrawn _ hu hopen | taken _ _ _ hu hopen =>
    exact absurd hand ((ten.free_of_open hu hopen).1 k)
  | @ended k' t d _ _ hj ht hd hends =>
    -- the worker itself, which only removes
    subst ht
    obtain ⟨htook, hpend⟩ := hends.state
    have hsame : n = k := ten.sole n k (holds_of_course hd htook hpend) hand
    cases hends with
    | removed | dropped => exact .inl rfl
    | putBack | gaveUp => cases hno hsame

/-- From the claim of a task on, if its worker neither puts it back nor gives it up, its mails stay
as they are until it is gone. -/
lemma kept_since_claim (h : f.Reachable s) (hlog : s.log = pre ++ c :: post)
    (hc : (claim? id c.exchange).isSome = true) (hu : c.before.store.get? id = some u)
    (hno : ∀ e ∈ s.log, e.thread = c.thread → updates e.exchange = false) :
    stored s id = none ∨
      ∃ v, stored s id = some v ∧ v.isOpen = false ∧ v.fragments = u.fragments := by
  obtain ⟨t, next, x, ht, -, hs, asks₀, ha₀, ch, hrun⟩ := h.split hlog id
  have hu : stored t id = some u := by rw [stored, hs]; exact hu
  have hfirst := ht.trans (Run.refl.snoc (.answer asks₀ ha₀))
  -- the worker has the task in hand until it removes it
  have key : (∀ e ∈ s.log, e.thread = c.thread → updates e.exchange = false) →
      stored s id = none ∨ InHand s.log c.thread id ∧
        ∃ v, stored s id = some v ∧ v.fragments = u.fragments := by
    obtain ⟨clock, hr⟩ := hfirst
    refine view_since (P := fun m log =>
      (∀ e ∈ log, e.thread = c.thread → updates e.exchange = false) → m.get? id = none ∨
        InHand log c.thread id ∧ ∃ v, m.get? id = some v ∧ v.fragments = u.fragments)
      hr hrun (fun _ => .inr (hand_of_claim ch rfl hc hu)) ?_
    intro w n j q next a y hw hst asks ha ih hno
    rcases ih fun e he => hno e (List.mem_append_left _ he) with hn | ⟨hand, v, hv, he⟩
    · obtain ⟨e, he, hi⟩ := was_inserted ht hu
      have hpre := ((Run.refl.snoc (.answer asks₀ ha₀)).trans hst).log_grows
      exact .inl (gone_of_gone ⟨clock, hw⟩ (Run.refl.snoc (.answer asks ha))
        ⟨e, hpre.subset he, hi⟩ hn)
    · have hlast : n = c.thread → updates ⟨q, a⟩ = false :=
        hno ⟨n, j, q, a, w.shared⟩ (List.mem_append_right _ (List.mem_singleton_self _))
      rcases hand_step ⟨clock, hw⟩ (change hw rfl asks ha id) rfl hlast hand hv with
        hn | ⟨hand, v', hv', he'⟩
      · exact .inl hn
      · exact .inr ⟨hand, v', hv', he'.trans he⟩
  rcases key hno with hn | ⟨hand, v, hv, he⟩
  · exact .inl hn
  · obtain ⟨clock, hr⟩ := h
    obtain ⟨w, hw, held⟩ := (tenure (stock_first f clock) hr id).held _ hand
    obtain rfl : v = w := Option.some.inj (hv.symm.trans hw)
    exact .inr ⟨v, hv, held.not_open, he⟩

lemma fragments_since_claim (h : f.Reachable s) (hlog : s.log = pre ++ c :: post)
    (hc : (claim? id c.exchange).isSome = true) (hu : c.before.store.get? id = some u)
    (hno : ∀ e ∈ s.log, e.thread = c.thread → updates e.exchange = false)
    (hv : stored s id = some v) : v.fragments = u.fragments := by
  rcases kept_since_claim h hlog hc hu hno with hnone | ⟨w, hw, -, hf⟩
  · cases hnone.symm.trans hv
  · obtain rfl : w = v := Option.some.inj (hw.symm.trans hv)
    exact hf

/-! ### What requests have added -/

lemma Change.open_of_appended {n : Nat} {j : Job} {x : Exchange} {o : Option Task} {m : Mail}
    (ch : Change f s n j id x o) (hx : appended? id x = some m) :
    ∃ u, stored s id = some u ∧ u.isOpen = true := by
  cases ch with
  | still _ _ _ ha => rw [ha] at hx; cases hx
  | born | withdrawn => cases hx
  | joined _ _ _ hu ho => exact ⟨_, hu, ho⟩
  | taken => simp [appended?, Patch.claim] at hx
  | ended _ _ _ he => cases he <;> simp [appended?, Patch.reschedule, Patch.fail] at hx

lemma Change.new_of_inserts {x₀ : Shared} {n : Nat} {j : Job} {q : Ask}
    {next : q.Answer → Work j.Result} {x : Exchange} {o : Option Task}
    (h : Run f.rules { shared := x₀ } s) (asks : s.threads[n]? = some ⟨j, .ask q next⟩)
    (ch : Change f s n j id x o) (hx : inserts id x = true) :
    (∀ b ∈ s.log, inserts id b.exchange = false) ∧ ∃ task, o = some task ∧
      x = ⟨.store (.insert task), (Except.ok () : Except StoreError Unit)⟩ := by
  obtain ⟨r, sendAt, hj, hd, -, hx, ho⟩ := ch.of_inserts hx
  obtain ⟨i, duty⟩ := j
  obtain rfl : duty = .enqueue r := hj
  exact ⟨not_inserted_of_storing h asks hd, _, ho, hx⟩

/-- A request that sees a task carry its mail sees it open, or opens it. -/
lemma open_or_new_of_carries (h : f.Reachable s) (hlog : s.log = pre ++ e :: post) {r : Request}
    (hx : Intake.Carries r id e.exchange) :
    (∃ u, e.before.store.get? id = some u ∧ u.isOpen = true) ∨
      ∀ b ∈ pre, inserts id b.exchange = false := by
  obtain ⟨t, next, x, ⟨clock, ht⟩, rfl, hs, asks, ha, ch, -⟩ := h.split hlog id
  rw [← hs]
  have he : e ∈ s.log := by rw [hlog]; simp
  generalize hy : e.exchange = y at hx ch
  cases hx with
  | found hid =>
    obtain ⟨clock, hr⟩ := h
    obtain ⟨hf, ho, -⟩ :=
      found_of_mem_log hr rfl (distinct_first f _) he hy
    rw [← hs, hid] at hf
    exact .inl ⟨_, hf, ho⟩
  | joined => exact .inl (ch.open_of_appended (appended?_append _ _ _))
  | opened sendAt =>
    exact .inr (ch.new_of_inserts ht asks (Intake.inserts_fresh ..)).1

/-- A request that has seen a task carry its mail has it, or one to the same effect, among the mails
of the task. -/
lemma carried (h : f.Reachable s) (he : e ∈ s.log) {r : Request}
    (hx : Intake.Carries r id e.exchange) (hu : stored s id = some u) :
    ∃ m ∈ u.fragments, m = r.mail ∨ m.equivalent r.mail = true := by
  obtain ⟨pre, post, hlog⟩ := List.append_of_mem he
  obtain ⟨t, next, x, ht, rfl, hs, asks, ha, ch, hrun⟩ := h.split hlog id
  have hstep : Run f.rules t (t.answered e.thread e.job e.ask e.answer next x) :=
    Run.refl.snoc (.answer asks ha)
  generalize hy : e.exchange = y at hx ch
  cases hx with
  | @found w task m hid hm hq =>
    obtain ⟨clock, hr⟩ := h
    obtain ⟨hf, -⟩ := found_of_mem_log hr rfl (distinct_first f _) he hy
    rw [hid] at hf
    -- the list that was looked up is a prefix of the one stored now
    exact ⟨m, (prefix_of_mem_log ⟨clock, hr⟩ he hf hu).subset hm, .inr hq⟩
  | joined =>
    obtain ⟨w, hw, -⟩ := ch.open_of_appended (appended?_append _ _ _)
    refine ⟨r.mail, ?_, .inl rfl⟩
    rw [grown ht (hstep.trans hrun) hw hu, hlog, List.drop_left]
    refine List.mem_append_right _ (List.mem_filterMap.2 ⟨e, List.mem_cons_self .., ?_⟩)
    rw [hy]
    exact appended?_append _ _ _
  | opened sendAt =>
    obtain ⟨clock, hr⟩ := ht
    obtain ⟨-, task, ho, heq⟩ :=
      ch.new_of_inserts hr asks (Intake.inserts_fresh ..)
    cases heq
    refine ⟨r.mail, ?_, .inl rfl⟩
    have hg := grown (Reachable.trans ⟨clock, hr⟩ hstep) hrun ho hu
    rw [hg]
    exact List.mem_append_left _ (List.mem_singleton_self _)

/-! ### The account of a task that was sent -/

lemma not_accepts_of_claim {x : Exchange} (hx : (claim? id x).isSome = true) :
    accepts x = false := by
  obtain ⟨q, a⟩ := x
  cases q with
  | store => rfl
  | _ => cases hx

lemma not_claim_of_carries {r : Request} {x : Exchange} (hx : Intake.Carries r id x) :
    claim? id x = none := by
  cases hx <;> rfl

/-- The account of a task that a job has sent. It was listed at `d` and claimed at `c`, holding the
mails of `kept` by then; `e` is the record of the message. -/
structure Delivery (f : Fleet) (s : State) (n i k : Nat) (listed kept : Task)
    (pre window post : List Entry) (d c e : Entry) : Prop where
  log : s.log = (pre ++ d :: window) ++ c :: post
  /-- The tick has listed the task as it was stored. -/
  listing : d.thread = k ∧ ∃ now due, .task listed ∈ due ∧
    d.exchange = ⟨.store (.due now), (Except.ok due : Except StoreError (List Store.Due))⟩
  stored_listed : d.before.store.get? listed.id = some listed
  claiming : c.thread = n ∧ (claim? listed.id c.exchange).isSome = true
  stored_claimed : c.before.store.get? listed.id = some kept
  sending : e ∈ post ∧ e.thread = n ∧ accepts e.exchange = true
  /-- The message was compiled from the mails that were listed. -/
  compiled : ∃ index message o transport, e.exchange = ⟨.send index message, o⟩ ∧
    (f.queue i).pool.get? index = some transport ∧
    (f.queue i).compiler.compile transport (claimed listed) = .ok message
  /-- What the task holds beyond these was added between the listing and the claim. -/
  added : kept.fragments =
    listed.fragments ++ window.filterMap fun b => appended? listed.id b.exchange
  /-- Nothing was added since, up to the write that resolves the task and beyond. -/
  stays : ∀ r ∈ post, ∀ v, r.before.store.get? listed.id = some v → v.fragments = kept.fragments
  left : ∀ v, stored s listed.id = some v → v.fragments = kept.fragments
  /-- Whoever was told that the task will carry a mail has it among these. -/
  carried : ∀ (m j : Nat) (r : Request),
    s.threads[m]? = some (⟨⟨j, .enqueue r⟩, .done (.ok listed.id)⟩ : Thread) →
    ∃ x ∈ kept.fragments, x = r.mail ∨ x.equivalent r.mail = true

/-- A worker was given its task as the tick has listed it, and what the task has more by now was
added since. -/
lemma listing_of_process (h : f.Reachable s) {n i k : Nat} {w : Work TaskOutcome} {t : Task}
    (hn : s.threads[n]? = some ⟨⟨i, .process k t⟩, w⟩) (hu : stored s t.id = some u) :
    ∃ pre d window, s.log = pre ++ d :: window ∧
      (d.thread = k ∧ ∃ now due, .task t ∈ due ∧ d.exchange =
        ⟨.store (.due now), (Except.ok due : Except StoreError (List Store.Due))⟩) ∧
      d.before.store.get? t.id = some t ∧
      u.fragments = t.fragments ++ window.filterMap fun b => appended? t.id b.exchange := by
  obtain ⟨clock, hr⟩ := h
  obtain ⟨d, hd, now, due, hk, -, hx, ht⟩ := listed_of_process hr hn
  obtain ⟨pre, window, hlog⟩ := List.append_of_mem hd
  obtain ⟨v, next, x, hv, rfl, hs, asks, ha, hrun⟩ := hr.split hlog
  have hget := listed_as_stored hr rfl (distinct_first f _) hd hx ht
  have hstep : Run f.rules v (v.answered d.thread d.job d.ask d.answer next x) := by
    rw [← hs] at ha
    exact Run.refl.snoc (.answer asks ha)
  refine ⟨v.log, d, window, hlog, ⟨hk, now, due, ht, hx⟩, hget, ?_⟩
  have hv' : stored v t.id = some t := by rw [stored, hs]; exact hget
  rw [grown ⟨clock, hv⟩ (hstep.trans hrun) hv' hu, hlog, List.drop_left, List.filterMap_cons, hx]
  rfl

lemma message_of_send (h : f.Reachable s) (he : e ∈ s.log) {i k : Nat} {t : Task}
    (hj : e.job = ⟨i, .process k t⟩) (ha : accepts e.exchange = true) :
    ∃ index message o transport, e.exchange = ⟨.send index message, o⟩ ∧
      (f.queue i).pool.get? index = some transport ∧
      (f.queue i).compiler.compile transport (claimed t) = .ok message := by
  obtain ⟨clock, hr⟩ := h
  obtain ⟨pre, post, hlog⟩ := List.append_of_mem he
  obtain ⟨v, next, x, hv, -, -, asks, -, -⟩ := hr.split hlog
  obtain ⟨n, j, q, a, b⟩ := e
  obtain rfl : j = ⟨i, .process k t⟩ := hj
  obtain ⟨d, hd, hw⟩ := attempt_of hv asks
  obtain ⟨d', step, -⟩ := Attempt.follow hw.symm a
  rcases step.outcome with ⟨ho, -⟩ | ⟨index, message, o, rfl, -, hx⟩
  · have ho : outcome? (⟨n, ⟨i, .process k t⟩, q, a, b⟩ : Entry).exchange = none := ho
    simp [accepts, ho] at ha
  · obtain ⟨transport, ht, hm⟩ := Attempt.compiled_of_sending hd
    exact ⟨index, message, o, transport, hx, ht, hm⟩

/-- Whoever was told that a task will carry a mail was told so before the claim, if its worker ends
well. -/
lemma carried_at_claim (h : f.Reachable s) (hlog : s.log = pre ++ c :: post)
    (hc : (claim? id c.exchange).isSome = true) (hu : c.before.store.get? id = some u)
    (hno : ∀ e ∈ s.log, e.thread = c.thread → updates e.exchange = false) {m j : Nat} {r : Request}
    (hm : s.threads[m]? = some (⟨⟨j, .enqueue r⟩, .done (.ok id)⟩ : Thread)) :
    ∃ x ∈ u.fragments, x = r.mail ∨ x.equivalent r.mail = true := by
  obtain ⟨t, -, -, ht, hpre, hs, -⟩ := h.split hlog id
  have hut : stored t id = some u := by rw [stored, hs]; exact hu
  have hreach := h
  obtain ⟨clock, hr⟩ := h
  obtain ⟨d, hd, hw⟩ := intake_of hr hm
  have hd : Course (Intake.Advance (f.queue j) r) (Intake.begin (f.queue j) r) (s.past m)
      (.finished (.ok id)) := by
    cases d with
    | finished o => cases hw; exact hd
    | _ => cases hw
  obtain ⟨y, hy, hcar⟩ := Intake.carried_of_course hd
  obtain ⟨b, hb, -, rfl⟩ := mem_pastIn.1 hy
  rw [hlog] at hb
  rcases List.mem_append.1 hb with hb | hb
  · exact carried ht (hpre ▸ hb) hcar hut
  rcases List.mem_cons.1 hb with rfl | hb
  · rw [not_claim_of_carries hcar] at hc
    cases hc
  -- after the claim the task is not open, and not new
  obtain ⟨p, p', rfl⟩ := List.append_of_mem hb
  have hlog' : s.log = (pre ++ c :: p) ++ b :: p' := by rw [hlog]; simp
  obtain ⟨v, -, -, hv, hvlog, hvs, -⟩ := hreach.split hlog' id
  have hkept := kept_since_claim hv hvlog hc hu fun e he => hno e (by
    rw [hlog', ← hvlog]
    exact List.mem_append_left _ he)
  rcases open_or_new_of_carries hreach hlog' hcar with ⟨w, hw, ho⟩ | hnew
  · have hw : stored v id = some w := by rw [stored, hvs]; exact hw
    rcases hkept with hn | ⟨w', hw', ho', -⟩
    · rw [hn] at hw
      cases hw
    · obtain rfl : w = w' := Option.some.inj (hw.symm.trans hw')
      rw [ho'] at ho
      cases ho
  · obtain ⟨e, he, hi⟩ := was_inserted ht hut
    rw [hnew e (List.mem_append_left _ (hpre ▸ he))] at hi
    cases hi

/-- The records of work that has sent its task: a message was accepted, and the task was neither put
back nor given up. -/
lemma accepted_of_sent {x₀ : Shared} (hr : Run f.rules { shared := x₀ } s) {n i k : Nat} {t : Task}
    (hn : s.threads[n]? = some ⟨⟨i, .process k t⟩, .done .sent⟩) :
    (∃ e ∈ s.log, e.thread = n ∧ e.job = ⟨i, .process k t⟩ ∧ accepts e.exchange = true) ∧
      ∀ e ∈ s.log, e.thread = n → updates e.exchange = false := by
  obtain ⟨d, hd, hw⟩ := attempt_of hr hn
  have hdel : d.delivered = true := by
    cases d with
    | finished o => cases hw; rfl
    | _ => cases hw
  constructor
  · obtain ⟨x, hx, hacc⟩ := (Attempt.delivered_iff hd).1 hdel
    obtain ⟨e, he, rfl, rfl⟩ := mem_pastIn.1 hx
    exact ⟨e, he, rfl, hr.job_eq he hn, hacc⟩
  · intro e he hen
    by_contra hup
    have hnot := (Attempt.not_delivered_of_updates hd (mem_pastIn.2 ⟨e, he, hen, rfl⟩)
      (by simpa using hup)).2
    rw [hdel] at hnot
    cases hnot

lemma sendsFor_of_accepts {i k : Nat} {t : Task} (hj : e.job = ⟨i, .process k t⟩)
    (ha : accepts e.exchange = true) : sendsFor t.id e = true := by
  simp only [accepts] at ha
  rcases ho : outcome? e.exchange with _ | o
  · rw [ho] at ha
    cases ha
  · simp [sendsFor, hj, Job.task?, ho]

lemma mem_post_of_accepts (hlog : s.log = pre ++ c :: post) (hpast : pastIn pre c.thread = [])
    (hc : (claim? id c.exchange).isSome = true) (he : e ∈ s.log) (hen : e.thread = c.thread)
    (ha : accepts e.exchange = true) : e ∈ post := by
  rw [hlog] at he
  rcases List.mem_append.1 he with he | he
  · have hx : e.exchange ∈ pastIn pre c.thread := mem_pastIn.2 ⟨e, he, hen, rfl⟩
    rw [hpast] at hx
    cases hx
  rcases List.mem_cons.1 he with rfl | he
  · rw [not_accepts_of_claim hc] at ha
    cases ha
  · exact he

/-- **What a message carries**: the mails that the task held when the tick listed it. Of the mails
that the task holds when it is resolved, only those added between the listing and the claim are not
among them. -/
theorem delivery (h : f.Reachable s) {n i k : Nat} {t : Task}
    (hn : s.threads[n]? = some ⟨⟨i, .process k t⟩, .done .sent⟩) :
    ∃ kept pre window post d c e, Delivery f s n i k t kept pre window post d c e := by
  have hreach := h
  obtain ⟨clock, hr⟩ := h
  obtain ⟨⟨e, he, hen, hjob, hacc⟩, hno⟩ := accepted_of_sent hr hn
  -- the claim, and the task as it was then
  obtain ⟨c, hcm, hcn, hc⟩ := claimed_of_sends hr he (sendsFor_of_accepts hjob hacc)
  rw [hen] at hcn
  subst hcn
  have hcj : c.job = ⟨i, .process k t⟩ := hr.job_eq hcm hn
  obtain ⟨preC, post, hlog⟩ := List.append_of_mem hcm
  obtain ⟨v, next, y, hv, rfl, hvs, asks, -, ch, hrun⟩ := hreach.split hlog t.id
  obtain ⟨-, -, kept, hpast, -, hkept, -⟩ := ch.of_claim hc
  have hkept' : c.before.store.get? t.id = some kept := by rw [← hvs]; exact hkept
  -- the listing before it
  have hwork : ∃ w, v.threads[c.thread]? = some (⟨⟨i, .process k t⟩, w⟩ : Thread) := by
    rw [← hcj]
    exact ⟨_, asks⟩
  obtain ⟨w, hw⟩ := hwork
  obtain ⟨pre, d, window, hpre, hlisting, hlisted, hadded⟩ := listing_of_process hv hw hkept
  refine ⟨kept, pre, window, post, d, c, e, ?_⟩
  exact {
    log := by rw [hlog, hpre]
    listing := hlisting
    stored_listed := hlisted
    claiming := ⟨rfl, hc⟩
    stored_claimed := hkept'
    sending := ⟨mem_post_of_accepts hlog hpast hc he hen hacc, hen, hacc⟩
    compiled := message_of_send hreach he hjob hacc
    added := hadded
    stays := by
      intro r hr' v' hv'
      obtain ⟨p, p', rfl⟩ := List.append_of_mem hr'
      have hlog' : s.log = (v.log ++ c :: p) ++ r :: p' := by rw [hlog]; simp
      obtain ⟨z, -, -, hz, hzlog, hzs, -⟩ := hreach.split hlog' t.id
      rw [← hzs] at hv'
      refine fragments_since_claim hz hzlog hc hkept' (fun e he => hno e ?_) hv'
      rw [hlog', ← hzlog]
      exact List.mem_append_left _ he
    left := fun v' hv' => fragments_since_claim hreach hlog hc hkept' hno hv'
    carried := fun m j r hm => carried_at_claim hreach hlog hc hkept' hno hm }

/-! ### The window -/

def merging : Fleet := uniform { concat := { enabled := true } } [⟨"smtp", none⟩]

/-- A second mail joins a task after a tick has listed it and before it is claimed. -/
def overtaken : List Move :=
  [.start 0 (.enqueue (note "a@x" "one")), .reply 0, .name 0 (.ofNat 1), .reply 0,
    .clock minute, .start 0 .list, .reply 1, .reply 1,
    .start 0 (.enqueue (note "a@x" "two")), .reply 2, .reply 2,
    .takeUp 1, .reply 3, .reply 3, .outcome 3 (.report { accepted := ["a@x"] }), .reply 3, .reply 3]

/-- The task that the job of this number has sent, if it was the second job that listed it. -/
def sent? (s : State) (n : Nat) : Option Task :=
  match s.threads[n]? with
  | some ⟨⟨0, .process 1 t⟩, .done .sent⟩ => some t
  | _ => none

lemma thread_of_sent? {s : State} {n : Nat} {t : Task} (h : sent? s n = some t) :
    s.threads[n]? = some ⟨⟨0, .process 1 t⟩, .done .sent⟩ := by
  unfold sent? at h
  split at h
  · next u hn =>
    obtain rfl := Option.some.inj h
    exact hn
  · cases h

theorem delivery_overtaken : ∃ s t, merging.Reachable s ∧
    s.threads[3]? = some ⟨⟨0, .process 1 t⟩, .done .sent⟩ ∧
    ∃ kept pre window post d c e, Delivery merging s 3 0 1 t kept pre window post d c e := by
  have key : ((merging.playAll { shared := merging.first [] .epoch } overtaken).any fun s =>
      (sent? s 3).isSome) = true := by decide +kernel
  obtain ⟨s, hs, hv⟩ := (Option.any_eq_true ..).1 key
  obtain ⟨t, ht⟩ := Option.isSome_iff_exists.1 hv
  have h := reachable_of_playAll hs
  have hn := thread_of_sent? ht
  exact ⟨s, t, h, hn, delivery h hn⟩

/-- What ticks have sent was compiled from all the mails that the task held when it was resolved. -/
def HandsOverAll (f : Fleet) (s : State) : Prop :=
  ∀ (n i k : Nat) (t : Task), s.threads[n]? = some ⟨⟨i, .process k t⟩, .done .sent⟩ →
    ∀ e ∈ s.log, e.thread = n → ∀ index message o, e.exchange = ⟨.send index message, o⟩ →
    ∀ r ∈ s.log, r.thread = n → resolves t.id r.exchange = true →
    ∀ u, r.before.store.get? t.id = some u →
    ∃ transport, (f.queue i).pool.get? index = some transport ∧
      (f.queue i).compiler.compile transport u = .ok message

def textOf (q : Queue) (index : Nat) (t : Task) : Option String :=
  (q.pool.get? index).bind fun transport =>
    match q.compiler.compile transport t with
    | .ok message => message.text
    | .error _ => none

/-- The message of one record has another text than the task that another record resolves. -/
def overlooks (f : Fleet) (s : State) (n a b : Nat) : Bool :=
  match s.threads[n]?, s.log[a]?, s.log[b]? with
  | some ⟨⟨i, .process _ t⟩, .done .sent⟩, some e, some r =>
    e.thread == n && r.thread == n && resolves t.id r.exchange &&
      match e.exchange, r.before.store.get? t.id with
      | ⟨.send index message, _⟩, some u => textOf (f.queue i) index u != message.text
      | _, _ => false
  | _, _, _ => false

lemma not_handsOverAll_of_overlooks {n a b : Nat} (h : f.overlooks s n a b = true) :
    ¬ HandsOverAll f s := by
  intro hall
  unfold overlooks at h
  split at h
  · next i k t e r hn he hr =>
    simp only [Bool.and_eq_true, beq_iff_eq] at h
    obtain ⟨⟨⟨hen, hrn⟩, hres⟩, h⟩ := h
    split at h
    · next index message o u hx hu =>
      obtain ⟨transport, ht, hm⟩ := hall n i k t hn e (List.mem_of_getElem? he) hen index message o
        hx r (List.mem_of_getElem? hr) hrn hres u hu
      simp [textOf, ht, hm] at h
    · cases h
  · cases h

/-- The window between the listing and the claim is not empty. -/
theorem not_handsOverAll : ¬ ∀ (f : Fleet) (s : State), f.config.concat.enabled = true →
    f.Reachable s → HandsOverAll f s := by
  intro hall
  have key : ((merging.playAll { shared := merging.first [] .epoch } overtaken).map fun s =>
      merging.overlooks s 3 9 10) = some true := by decide +kernel
  obtain ⟨s, hs, hv⟩ := Option.map_eq_some_iff.1 key
  exact not_handsOverAll_of_overlooks hv (hall merging s rfl (reachable_of_playAll hs))

end MailQueue.Fleet

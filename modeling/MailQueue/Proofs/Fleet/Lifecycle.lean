import MailQueue.Proofs.Fleet.Growth
import MailQueue.Proofs.Fleet.Withdrawal

/-!
# The life of a task

Putting back, giving up and removing are written without a condition. That they never touch a task
that is over, and that no two marks of a task stand together, rests on who has it in hand.

* `Sound` is what holds of each stored task, `Passage` what one answer may make of it;
* `passage`: no step makes anything else of it;
* `Passage.sound`: what is sound stays so;
* `lifecycle` gathers this for each state that can be reached, with the finality of the marks.
-/

namespace MailQueue.Fleet

open Queue Interleaving

variable {f : Fleet} {x₀ : Shared} {s t : State} {id : TaskId} {u v : Task} {n : Nat}

/-! ### Stored tasks -/

/-- What holds of a stored task. -/
structure Sound (f : Fleet) (u : Task) : Prop where
  /-- One mark at most. -/
  marks : [u.sent, u.cancelled, u.failed].count true ≤ 1
  mails : u.fragments ≠ []
  attempts_le : u.attempts ≤ f.config.maxAttempts
  /-- An open task has an attempt left. -/
  attempts_lt : u.isOpen = true → u.attempts < f.config.maxAttempts

lemma Sound.of_sent (h : Sound f u) (hs : u.sent = true) :
    u.cancelled = false ∧ u.failed = false := by
  have hm := h.marks
  rw [hs] at hm
  cases hc : u.cancelled <;> cases hf : u.failed <;> simp [hc, hf] at hm ⊢

/-- What one answer may make of the stored task, `none` standing for no task. -/
inductive Passage (f : Fleet) (s : State) (n : Nat) (id : TaskId) :
    Exchange → Option Task → Option Task → Prop where
  | same {x : Exchange} (o : Option Task) : Passage f s n id x o o
  | opened {x : Exchange} {v : Task} {m : Mail} (hx : inserts id x = true) (ho : v.isOpen = true)
      (ha : v.attempts = 0) (hm : v.fragments = [m]) : Passage f s n id x none (some v)
  | grown {x : Exchange} {u : Task} {m : Mail} (hx : appended? id x = some m)
      (ho : u.isOpen = true) :
      Passage f s n id x (some u) (some { u with fragments := u.fragments ++ [m] })
  | withdrawn {x : Exchange} {u : Task} (hx : withdraws id x = true) (ho : u.isOpen = true)
      (hk : f.config.keepHistory = true) :
      Passage f s n id x (some u) (some { u with cancelled := true })
  /-- The cancellation of an open task removes it if finished tasks are not kept. -/
  | cancelled {x : Exchange} {u : Task} (hx : withdraws id x = true) (ho : u.isOpen = true)
      (hk : f.config.keepHistory = false) : Passage f s n id x (some u) none
  | claimed {x : Exchange} {u : Task} {next : UInt32} (hx : claim? id x = some next)
      (ho : u.isOpen = true) (hn : next.toNat = u.attempts.toNat + 1) :
      Passage f s n id x (some u) (some { u with attempts := next, sent := true })
  /-- Who has the task in hand puts it back, with an attempt left. -/
  | putBack {u : Task} {retryAt : Instant} {transport : Nat} (hand : InHand s.log n id)
      (hs : u.sent = true) (hl : u.attempts < f.config.maxAttempts) :
      Passage f s n id
        ⟨.store (.mutate id (.reschedule retryAt transport)),
          (Except.ok true : Except StoreError Bool)⟩
        (some u) (some { u with sent := false, sendAt := retryAt, transport := transport })
  /-- Who has the task in hand gives it up. -/
  | gaveUp {u : Task} (hand : InHand s.log n id) (hs : u.sent = true) :
      Passage f s n id
        ⟨.store (.mutate id .fail), (Except.ok true : Except StoreError Bool)⟩
        (some u) (some { u with sent := false, failed := true })
  /-- Who has the task in hand removes it. -/
  | removed {u : Task} {b : Bool} (hand : InHand s.log n id) (hs : u.sent = true) :
      Passage f s n id ⟨.store (.delete id), (Except.ok b : Except StoreError Bool)⟩ (some u) none

lemma Passage.sound {x : Exchange} {o : Option Task} (p : Passage f s n id x o (some v))
    (hmax : 0 < f.config.maxAttempts) (h : ∀ u, o = some u → Sound f u) : Sound f v := by
  generalize hv : some v = o' at p
  cases p with
  | same => exact h v hv.symm
  | opened _ ho ha hm =>
    obtain rfl := Option.some.inj hv
    obtain ⟨hs, hc, hf⟩ := Task.isOpen_iff.1 ho
    refine ⟨by simp [hs, hc, hf], by simp [hm], ?_, fun _ => ha ▸ hmax⟩
    rw [ha]
    exact UInt32.le_of_lt hmax
  | @grown _ u =>
    obtain rfl := Option.some.inj hv
    have hu := h u rfl
    exact ⟨hu.marks, by simp, hu.attempts_le, hu.attempts_lt⟩
  | @withdrawn _ u _ ho =>
    obtain rfl := Option.some.inj hv
    have hu := h u rfl
    obtain ⟨hs, hc, hf⟩ := Task.isOpen_iff.1 ho
    exact ⟨by simp [hs, hf], hu.mails, hu.attempts_le, by simp [Task.isOpen]⟩
  | cancelled | removed => cases hv
  | @claimed _ u next _ ho hn =>
    obtain rfl := Option.some.inj hv
    have hu := h u rfl
    obtain ⟨hs, hc, hf⟩ := Task.isOpen_iff.1 ho
    have hlt := UInt32.lt_iff_toNat_lt.1 (hu.attempts_lt ho)
    have hle : next.toNat ≤ f.config.maxAttempts.toNat := by omega
    exact ⟨by simp [hc, hf], hu.mails, UInt32.le_iff_toNat_le.2 hle, by simp [Task.isOpen]⟩
  | @putBack u _ _ _ hs hl =>
    obtain rfl := Option.some.inj hv
    have hu := h u rfl
    obtain ⟨hc, hf⟩ := hu.of_sent hs
    exact ⟨by simp [hc, hf], hu.mails, hu.attempts_le, fun _ => hl⟩
  | @gaveUp u _ hs =>
    obtain rfl := Option.some.inj hv
    have hu := h u rfl
    obtain ⟨hc, hf⟩ := hu.of_sent hs
    exact ⟨by simp [hc], hu.mails, hu.attempts_le, by simp [Task.isOpen]⟩

/-! ### What a step makes of a task -/

/-- The work on a task writes to what its claim has left. -/
lemma passage_of_ends (hx : Stock f x₀) (h : Run f.rules { shared := x₀ } s) {i : Nat} {t : Task}
    {d : Attempt} {x : Exchange} {o : Option Task}
    (hd : Course (Attempt.Advance (f.queue i) t) (Attempt.begin t) (s.past n) d)
    (he : Ends t.id (stored s t.id) d x o) : Passage f s n t.id x (stored s t.id) o := by
  obtain ⟨htook, hpend⟩ := he.state
  have hand : InHand s.log n t.id := holds_of_course hd htook hpend
  obtain ⟨u, hu, held⟩ := (tenure hx h t.id).held n hand
  have hu : stored s t.id = some u := hu
  rw [hu] at he ⊢
  cases he with
  | removed | dropped => exact .removed hand held.sent
  | gaveUp e hu' =>
    obtain rfl := Option.some.inj hu'
    exact .gaveUp hand held.sent
  | putBack retryAt transport e hu' =>
    obtain rfl := Option.some.inj hu'
    refine .putBack hand held.sent ?_
    have hleft := Attempt.left_of_course hd rfl
    rw [Held.attempts_eq held hd htook, ← f.shared i]
    exact hleft

/-- **No step makes anything else of a task.** -/
theorem passage (h : f.Reachable s) {j : Job} {q : Ask} {next : q.Answer → Work j.Result}
    {a : q.Answer} {y : Shared} (asks : s.threads[n]? = some ⟨j, .ask q next⟩)
    (ha : f.Answers j.queue s.shared q a y) (id : TaskId) :
    Passage f s n id ⟨q, a⟩ (stored s id) (y.store.get? id) := by
  have hgrow := fun v (hv : y.store.get? id = some v) => grows h asks ha hv
  have ch := h.change asks ha id
  obtain ⟨clock, hr⟩ := h
  obtain ⟨i, duty⟩ := j
  generalize ho : y.store.get? id = o at ch hgrow
  generalize hx : (⟨q, a⟩ : Exchange) = x at ch hgrow
  cases ch with
  | still => exact .same _
  | born hj hd hs =>
    rw [hs]
    exact .opened (Intake.inserts_fresh ..) rfl rfl rfl
  | @joined r t u windowEnd rounds hj ht hd hu hopen hat hl =>
    rcases hgrow _ rfl with ⟨w, hw, hfr⟩ | ⟨hnone, -⟩
    · obtain rfl := Option.some.inj (hw.symm.trans hu)
      rw [appended?_append] at hfr
      have hfr : t.fragments ++ [r.mail] = w.fragments ++ [r.mail] := hfr
      rw [hu, hfr]
      exact .grown (appended?_append id t r.mail) hopen
    · cases hnone.symm.trans hu
  | withdrawn hj hu hopen =>
    rw [hu]
    have hw : withdraws id ⟨.store (.cancel id), (Except.ok true : Except StoreError Bool)⟩ =
        true := beq_self_eq_true id
    cases hk : f.config.keepHistory with
    | true => exact .withdrawn hw hopen hk
    | false => exact .cancelled hw hopen hk
  | @taken k t u hj ht hp hu hopen hat =>
    obtain rfl := hj
    have hmax := (due_of_process hr rfl asks).2
    rw [hu]
    refine .claimed (by simp [claim?, Patch.claim]) hopen ?_
    rw [Attempt.toNat_nextAttempt hmax, hat]
  | ended hj ht hd hends =>
    subst ht
    exact passage_of_ends (stock_first f clock) hr hd hends

lemma sound_of_stored (hmax : 0 < f.config.maxAttempts) (h : f.Reachable s)
    (hu : stored s id = some u) : Sound f u := by
  obtain ⟨clock, hr⟩ := h
  have key : ∀ u, stored s id = some u → Sound f u := by
    refine run_view (P := fun m _ _ => ∀ u, m.get? id = some u → Sound f u)
      (by simp [first, storeOf, Memory.get?]) ?_ hr
    intro s n j q next a y hs asks ha ih v hv
    have p := passage ⟨clock, hs⟩ asks ha id
    rw [hv] at p
    exact p.sound hmax ih
  exact key u hu

/-! ### Tasks that are over -/

/-- A task that bears the mark of cancellation or failure is in no hand. -/
lemma retired_of_marked (hx : Stock f x₀) (h : Run f.rules { shared := x₀ } s)
    (hu : stored s id = some u) (hm : u.cancelled = true ∨ u.failed = true) :
    Retired x₀ id s.shared.store s.log := by
  refine ⟨known_of_stored hx h hu, fun v hv => ?_, fun k hk => ?_⟩
  · obtain rfl : u = v := Option.some.inj (hu.symm.trans hv)
    rcases hm with hm | hm <;> simp [Task.isOpen, hm]
  · obtain ⟨v, hv, held⟩ := (tenure hx h id).held k hk
    obtain rfl : u = v := Option.some.inj (hu.symm.trans hv)
    rcases hm with hm | hm
    · rw [held.cancelled] at hm
      cases hm
    · rw [held.failed] at hm
      cases hm

def Removal (id : TaskId) (n : Nat) (d : Entry) : Prop :=
  d.thread = n ∧ ∃ b, d.exchange = ⟨.store (.delete id), (Except.ok b : Except StoreError Bool)⟩

/-- A task of which a message was accepted is left alone by each answer, but for its removal by who
has sent it. -/
lemma Change.of_delivered (hx : Stock f x₀) (h : Run f.rules { shared := x₀ } s) {j : Job}
    {x : Exchange} {o : Option Task} (ch : Change f s n j id x o) (hu : stored s id = some u)
    {e : Entry} (he : e ∈ s.log) (hs : sendsFor id e = true) (hacc : accepts e.exchange = true) :
    o = some u ∨ o = none ∧ n = e.thread ∧
      ∃ b, x = ⟨.store (.delete id), (Except.ok b : Except StoreError Bool)⟩ := by
  obtain ⟨hclosed, hand⟩ := (tenure hx h id).closed e he hs hacc
  cases ch with
  | still => exact .inl hu
  | born _ _ hn => cases hn.symm.trans hu
  | joined _ _ _ hw ho | withdrawn _ hw ho | taken _ _ _ hw ho =>
    rw [hclosed _ hw] at ho
    cases ho
  | ended hj ht hd hends =>
    subst ht
    obtain ⟨htook, hpend⟩ := hends.state
    have hn := hand n (holds_of_course hd htook hpend)
    have hmine : e.exchange ∈ s.past n := mem_pastIn.2 ⟨e, he, hn.symm, rfl⟩
    cases hends with
    | removed | dropped => exact .inr ⟨rfl, hn, _, rfl⟩
    | putBack _ _ _ hw | gaveUp _ hw =>
      have hd := (Attempt.delivered_iff hd).2 ⟨_, hmine, hacc⟩
      cases hd

/-- From the acceptance of a message on nothing becomes of a task but its removal. -/
lemma kept_since_delivery (h : f.Reachable s) (h' : Run f.rules s t) (hu : stored s id = some u)
    {e : Entry} (he : e ∈ s.log) (hs : sendsFor id e = true) (hacc : accepts e.exchange = true) :
    stored t id = some u ∨
      stored t id = none ∧ ∃ d ∈ t.log.drop s.log.length, Removal id e.thread d := by
  have hborn := was_inserted h hu
  have hreach := h
  obtain ⟨clock, hr⟩ := h
  refine view_since (P := fun m log => m.get? id = some u ∨
    m.get? id = none ∧ ∃ d ∈ log.drop s.log.length, Removal id e.thread d) hr h' (.inl hu) ?_
  intro t n j q next a y ht hst asks ha ih
  rcases ih with hv | ⟨hnone, d, hd, hrem⟩
  · rcases (change ht rfl asks ha id).of_delivered (stock_first f clock) ht hv
      (hst.log_grows.subset he) hs hacc with hv | ⟨hv, rfl, b, hx⟩
    · exact .inl hv
    · refine .inr ⟨hv, ⟨e.thread, j, q, a, t.shared⟩, ?_, rfl, b, hx⟩
      rw [List.drop_append_of_le_length hst.log_grows.length_le]
      exact List.mem_append_right _ (List.mem_singleton_self _)
  · refine .inr ⟨?_, d, ?_, hrem⟩
    · exact gone_of_gone (hreach.trans hst) (Run.refl.snoc (.answer asks ha))
        (hborn.imp fun e he => ⟨hst.log_grows.subset he.1, he.2⟩) hnone
    · rw [List.drop_append_of_le_length hst.log_grows.length_le]
      exact List.mem_append_left _ hd

/-! ### Each state that can be reached -/

/-- What can be said, at any moment, of the task under an identifier. -/
structure Lifecycle (f : Fleet) (s : State) (id : TaskId) : Prop where
  sound : ∀ u, stored s id = some u → Sound f u
  /-- The steps from here: nothing is recorded and the task stays as it is, or one answer is
  recorded, and the task passes on. -/
  steps : ∀ t, Step f.rules s t → t.log = s.log ∧ stored t id = stored s id ∨
    ∃ e, t.log = s.log ++ [e] ∧
      Passage f s e.thread id e.exchange (stored s id) (stored t id)
  /-- Attempts are never taken back. -/
  counted : ∀ u t v, stored s id = some u → Run f.rules s t → stored t id = some v →
    u.attempts ≤ v.attempts
  /-- A cancelled or failed task stays as it is for ever. -/
  marked : ∀ u, stored s id = some u → u.cancelled = true ∨ u.failed = true →
    ∀ t, Run f.rules s t → stored t id = some u
  /-- A task of which a message was accepted stays as it is until its sender removes it for good. -/
  delivered : ∀ u e, stored s id = some u → e ∈ s.log → sendsFor id e = true →
    accepts e.exchange = true → ∀ t, Run f.rules s t → stored t id = some u ∨
      stored t id = none ∧ ∃ d ∈ t.log.drop s.log.length, Removal id e.thread d

/-- **The life of a task**, whatever runs beside it. -/
theorem lifecycle (hc : f.config.validate = .ok ()) (h : f.Reachable s) (id : TaskId) :
    Lifecycle f s id := by
  have hmax := Config.maxAttempts_pos_of_validate hc
  have hreach := h
  obtain ⟨clock, hr⟩ := h
  have hx := stock_first f clock
  refine ⟨fun u hu => sound_of_stored hmax hreach hu, fun t step => ?_, fun u t v hu ht hv => ?_,
    fun u hu hm t ht => ?_, fun u e hu he hs hacc t ht => ?_⟩
  · cases step with
    | move hm =>
      obtain ⟨c, rfl⟩ := hm
      exact .inl ⟨rfl, rfl⟩
    | start hst =>
      obtain ⟨rfl, -⟩ := hst
      exact .inl ⟨rfl, rfl⟩
    | answer asks ha => exact .inr ⟨_, rfl, passage hreach asks ha id⟩
  · exact (attempts_since hx hr ht hu hv).le
  · exact ((retired_of_marked hx hr hu hm).stays hx hr ht).1.trans hu
  · exact kept_since_delivery hreach ht hu he hs hacc

/-- A second mail joins the task of the first. A tick fails to send them and puts the task back, a
later one sends them, and the task is kept. -/
def secondTry : List Move :=
  [.start 0 (.enqueue (note "a@x" "one")), .reply 0, .name 0 (.ofNat 1), .reply 0,
    .start 1 (.enqueue (note "a@x" "two")), .reply 1, .reply 1,
    .clock minute, .start 0 .list, .reply 2, .reply 2, .takeUp 2,
    .reply 3, .reply 3, .outcome 3 (.error (.connection "down")), .reply 3, .reply 3, .reply 3,
    .clock ⟨120000000000, by decide, by decide⟩, .start 0 .list, .reply 4, .reply 4, .takeUp 4,
    .reply 5, .reply 5, .outcome 5 (.report { accepted := ["a@x"] }), .reply 5]

theorem lifecycle_secondTry : ∃ s u, archive.config.validate = .ok () ∧ archive.Reachable s ∧
    stored s (.ofNat 1) = some u ∧ u.sent = true ∧ u.attempts = 2 ∧ u.fragments.length = 2 ∧
    (s.log.any fun e => sendsFor (.ofNat 1) e && accepts e.exchange) = true ∧
    Lifecycle archive s (.ofNat 1) := by
  have key : ((archive.playAll { shared := archive.first [] .epoch } secondTry).any fun s =>
      (stored s (.ofNat 1)).any (fun u =>
        u.sent && u.attempts == 2 && u.fragments.length == 2) &&
      s.log.any fun e => sendsFor (.ofNat 1) e && accepts e.exchange) = true := by
    decide +kernel
  have hc : archive.config.validate = .ok () := by rfl
  obtain ⟨s, hs, hv⟩ := (Option.any_eq_true ..).1 key
  obtain ⟨hu, hacc⟩ := (Bool.and_eq_true ..).mp hv
  obtain ⟨u, hu, hv⟩ := (Option.any_eq_true ..).1 hu
  simp only [Bool.and_eq_true, beq_iff_eq] at hv
  obtain ⟨⟨hsent, hat⟩, hlen⟩ := hv
  have hreach := reachable_of_playAll hs
  exact ⟨s, u, hc, hreach, hu, hsent, hat, hlen, hacc, lifecycle hc hreach _⟩

end MailQueue.Fleet

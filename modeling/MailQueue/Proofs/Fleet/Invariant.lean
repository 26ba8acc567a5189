import MailQueue.Proofs.Fleet.Change

/-!
# What holds throughout a fleet

Facts about each state that can be reached, used by everything that is proved of a fleet.

* `run_view`: what holds of the store and the records at first and is kept by each answer holds
  throughout;
* `bound` and `distinct` are about the store, `due_of_process` about the tasks that ticks have
  listed;
* `fresh_unique` and `not_inserted_of_storing`: no identifier is given to two tasks.
-/

namespace MailQueue.Fleet

open Queue Interleaving

variable {f : Fleet} {x₀ : Shared} {s : State}

/-- What holds of the store and the records at first and is kept by each answer holds throughout. -/
theorem run_view {P : Memory → List TaskId → List Entry → Prop} (first : P x₀.store x₀.issued [])
    (keep : ∀ {s : State} {n : Nat} {j : Job} {q : Ask} {next : q.Answer → Work j.Result}
        {a : q.Answer} {y : Shared},
      Run f.rules { shared := x₀ } s → s.threads[n]? = some ⟨j, .ask q next⟩ →
      f.Answers j.queue s.shared q a y → P s.shared.store s.shared.issued s.log →
      P y.store y.issued (s.log ++ [⟨n, j, q, a, s.shared⟩]))
    (h : Run f.rules { shared := x₀ } s) : P s.shared.store s.shared.issued s.log := by
  induction h with
  | refl => exact first
  | @snoc s u h step ih =>
    cases step with
    | move hm =>
      obtain ⟨t, rfl⟩ := hm
      exact ih
    | start hs =>
      obtain ⟨rfl, -⟩ := hs
      exact ih
    | answer asks ha => exact keep h asks ha ih

/-! ### The store -/

lemma bound (h : Run f.rules { shared := x₀ } s)
    (hb : x₀.store.binding = some (Queue.binding f.config)) :
    s.shared.store.binding = some (Queue.binding f.config) := by
  refine run_view (P := fun m _ _ => m.binding = some (Queue.binding f.config)) hb ?_ h
  intro s n j q next a y _ _ ha hm
  cases ha with
  | store c => exact (Memory.binding_answer c).trans hm
  | _ => exact hm

lemma distinct (h : Run f.rules { shared := x₀ } s)
    (hb : x₀.store.binding = some (Queue.binding f.config)) (hd : x₀.store.Distinct) :
    s.shared.store.Distinct := by
  refine run_view (P := fun m _ _ => m.Distinct) hd ?_ h
  intro s n j q next a y hs _ ha hm
  cases ha with
  | store c => exact Memory.distinct_answer (bound hs hb) hm c
  | _ => exact hm

lemma distinct_first (f : Fleet) (clock : Instant) : (f.first [] clock).store.Distinct := by
  simp [Memory.Distinct, first, storeOf]

lemma change (h : Run f.rules { shared := x₀ } s)
    (hb : x₀.store.binding = some (Queue.binding f.config)) {n : Nat} {j : Job} {q : Ask}
    {next : q.Answer → Work j.Result} {a : q.Answer} {y : Shared}
    (asks : s.threads[n]? = some ⟨j, .ask q next⟩) (ha : f.Answers j.queue s.shared q a y)
    (id : TaskId) : Change f s n j id ⟨q, a⟩ (y.store.get? id) :=
  change_of_answer h (bound h hb) asks ha id

/-- What a record tells was done to the store as it was found. -/
lemma change_of_split (h : Run f.rules { shared := x₀ } s)
    (hb : x₀.store.binding = some (Queue.binding f.config)) {pre post : List Entry} {e : Entry}
    (hlog : s.log = pre ++ e :: post) (id : TaskId) :
    ∃ t next x, Run f.rules { shared := x₀ } t ∧ t.log = pre ∧ t.shared = e.before ∧
      t.threads[e.thread]? = some ⟨e.job, .ask e.ask next⟩ ∧
      f.Answers e.job.queue t.shared e.ask e.answer x ∧
      Change f t e.thread e.job id e.exchange (x.store.get? id) ∧
      Run f.rules (t.answered e.thread e.job e.ask e.answer next x) s := by
  obtain ⟨t, next, x, ht, hpre, hs, asks, ha, hrun⟩ := h.split hlog
  rw [← hs] at ha
  exact ⟨t, next, x, ht, hpre, hs, asks, ha, change ht hb asks ha id, hrun⟩

/-! ### The tasks that ticks have listed -/

lemma listed_of_process (h : Run f.rules { shared := x₀ } s) {n i k : Nat} {t : Task}
    {w : Work TaskOutcome} (hn : s.threads[n]? = some ⟨⟨i, .process k t⟩, w⟩) :
    ∃ e ∈ s.log, ∃ now due, e.thread = k ∧ e.job = ⟨i, .list⟩ ∧
      e.exchange = ⟨.store (.due now), (Except.ok due : Except StoreError (List Store.Due))⟩ ∧
      .task t ∈ due := by
  induction h generalizing n w with
  | refl => simp at hn
  | @snoc s u h step ih =>
    cases step with
    | move => exact ih hn
    | start hs =>
      rcases getElem?_started hn with ⟨-, hn⟩ | ⟨-, hj⟩
      · exact ih hn
      · obtain ⟨rfl, hj'⟩ := Thread.mk.inj hj
        obtain ⟨-, now, due, htick, hdue, -⟩ := hs
        have hpath := h.path htick
        rcases listing hpath with ⟨-, hp⟩ | ⟨_, -, hp⟩ | ⟨o, hp, -, hl⟩
        · cases hp
        · cases hp
        · have hl := hl now due (Program.done.inj hp).symm
          have hm : ⟨.store (.due now), .ok due⟩ ∈ s.past k := by rw [hl]; simp
          obtain ⟨e, he, rfl, hx⟩ := mem_pastIn.1 hm
          exact ⟨e, he, now, due, rfl, h.job_eq he htick, hx, List.mem_of_getElem? hdue⟩
    | @answer m j q next a x asks hx =>
      obtain ⟨w', hw'⟩ := job_of_answered asks hn
      obtain ⟨e, he, hh⟩ := ih hw'
      exact ⟨e, List.mem_append_left _ he, hh⟩

lemma answers_store {i : Nat} {x y : Shared} {c : Store.Call} {a : c.Answer}
    (h : f.Answers i x (.store c) a y) :
    (x.store.Allows c a ∧ y = { x with store := (x.store.answer c).2 }) ∨
      ((∃ e, a = c.failed e) ∧ y = x) := by
  cases h with
  | store _ ha => exact .inl ⟨ha, rfl⟩
  | fault _ e => exact .inr ⟨⟨e, rfl⟩, rfl⟩

lemma due_of_mem_log (h : Run f.rules { shared := x₀ } s)
    (hb : x₀.store.binding = some (Queue.binding f.config)) {e : Entry} (he : e ∈ s.log)
    {now : Instant} {due : List Store.Due} {t : Task}
    (hx : e.exchange = ⟨.store (.due now), (Except.ok due : Except StoreError (List Store.Due))⟩)
    (ht : .task t ∈ due) :
    t ∈ e.before.store.tasks ∧ t.isDue now f.config.maxAttempts = true := by
  obtain ⟨pre, post, hlog⟩ := List.append_of_mem he
  obtain ⟨u, next, x, hu, -, hs, -, ha, -⟩ := h.split hlog
  obtain ⟨n, j, q, a, b⟩ := e
  cases hx
  rcases answers_store ha with ⟨hd, -⟩ | ⟨⟨e, hd⟩, -⟩
  · obtain rfl : u.shared = b := hs
    obtain ⟨b, hbind, hdue⟩ := Memory.mem_of_due hd ht
    obtain rfl := Option.some.inj ((bound hu hb).symm.trans hbind)
    exact hdue
  · cases hd

lemma listed_as_stored (h : Run f.rules { shared := x₀ } s)
    (hb : x₀.store.binding = some (Queue.binding f.config)) (hd : x₀.store.Distinct) {e : Entry}
    (he : e ∈ s.log) {now : Instant} {due : List Store.Due} {t : Task}
    (hx : e.exchange = ⟨.store (.due now), (Except.ok due : Except StoreError (List Store.Due))⟩)
    (ht : .task t ∈ due) : e.before.store.get? t.id = some t := by
  have hm := (due_of_mem_log h hb he hx ht).1
  obtain ⟨pre, post, hlog⟩ := List.append_of_mem he
  obtain ⟨u, -, -, hu, -, hs, -⟩ := h.split hlog
  rw [← hs] at hm ⊢
  exact Memory.get?_of_mem (distinct hu hb hd) hm

/-- A task that is worked on was open when it was listed, with an attempt left. -/
lemma due_of_process (h : Run f.rules { shared := x₀ } s)
    (hb : x₀.store.binding = some (Queue.binding f.config)) {n i k : Nat} {t : Task}
    {w : Work TaskOutcome} (hn : s.threads[n]? = some ⟨⟨i, .process k t⟩, w⟩) :
    t.isOpen = true ∧ t.attempts < f.config.maxAttempts := by
  obtain ⟨e, he, now, due, -, -, hx, ht⟩ := listed_of_process h hn
  obtain ⟨ho, -, ha⟩ := Task.isDue_iff.1 (due_of_mem_log h hb he hx ht).2
  exact ⟨ho, ha⟩

/-! ### Identifiers -/

lemma fresh_unique (h : Run f.rules { shared := x₀ } s) {id : TaskId} {e e' : Entry}
    (he : e ∈ s.log) (he' : e' ∈ s.log) (hx : fresh? e.exchange = some id)
    (hx' : fresh? e'.exchange = some id) : e.thread = e'.thread := by
  have key : (∀ e ∈ s.log, ∀ id, fresh? e.exchange = some id → id ∈ s.shared.issued) ∧
      ∀ e ∈ s.log, ∀ e' ∈ s.log, ∀ id, fresh? e.exchange = some id →
        fresh? e'.exchange = some id → e.thread = e'.thread := by
    refine run_view (P := fun _ issued log =>
      (∀ e ∈ log, ∀ id, fresh? e.exchange = some id → id ∈ issued) ∧
      ∀ e ∈ log, ∀ e' ∈ log, ∀ id, fresh? e.exchange = some id →
        fresh? e'.exchange = some id → e.thread = e'.thread) (by simp) ?_ h
    rintro s n j q next a y - - ha ⟨hold, huniq⟩
    -- an answer hands out an identifier that was not handed out before, or none
    have hnew : (∃ id, fresh? ⟨q, a⟩ = some id ∧ id ∉ s.shared.issued ∧
        y.issued = id :: s.shared.issued) ∨
        (fresh? ⟨q, a⟩ = none ∧ y.issued = s.shared.issued) := by
      cases ha with
      | freshId id hid => exact .inl ⟨id, rfl, hid, rfl⟩
      | _ => exact .inr ⟨rfl, rfl⟩
    rcases hnew with ⟨id₀, hf, hid, hy⟩ | ⟨hf, hy⟩
    · rw [hy]
      refine ⟨fun e he id hx => ?_, fun e he e' he' id hx hx' => ?_⟩
      · rcases List.mem_append.1 he with he | he
        · exact List.mem_cons_of_mem _ (hold e he id hx)
        · obtain rfl := List.mem_singleton.1 he
          obtain rfl := Option.some.inj (hf.symm.trans hx)
          exact List.mem_cons_self ..
      · rcases List.mem_append.1 he with he | he <;> rcases List.mem_append.1 he' with he' | he'
        · exact huniq e he e' he' id hx hx'
        · obtain rfl := List.mem_singleton.1 he'
          obtain rfl := Option.some.inj (hf.symm.trans hx')
          exact absurd (hold e he id₀ hx) hid
        · obtain rfl := List.mem_singleton.1 he
          obtain rfl := Option.some.inj (hf.symm.trans hx)
          exact absurd (hold e' he' id₀ hx') hid
        · rw [List.mem_singleton.1 he, List.mem_singleton.1 he']
    · rw [hy]
      have hout : ∀ e ∈ s.log ++ [⟨n, j, q, a, s.shared⟩], ∀ id,
          fresh? e.exchange = some id → e ∈ s.log := by
        intro e he id hx
        rcases List.mem_append.1 he with he | he
        · exact he
        · obtain rfl := List.mem_singleton.1 he
          exact absurd (hf.symm.trans hx) (by simp)
      exact ⟨fun e he id hx => hold e (hout e he id hx) id hx, fun e he e' he' id hx hx' =>
        huniq e (hout e he id hx) e' (hout e' he' id hx') id hx hx'⟩
  exact key.2 e he e' he' id hx hx'

lemma fresh_of_inserts (h : Run f.rules { shared := x₀ } s) {id : TaskId} {e : Entry}
    (he : e ∈ s.log) (hi : inserts id e.exchange = true) :
    ∃ e' ∈ s.log, e'.thread = e.thread ∧ fresh? e'.exchange = some id := by
  obtain ⟨w, hw⟩ := h.thread_of_mem_log he
  have hx : e.exchange ∈ s.past e.thread := mem_pastIn.2 ⟨e, he, rfl, rfl⟩
  obtain ⟨n, ⟨i, duty⟩, q, a, b⟩ := e
  cases duty with
  | enqueue r =>
    obtain ⟨d, hd, -⟩ := intake_of h hw
    have hf := Intake.inserts_of_course hd hx hi
    have hm : id ∈ (s.past n).filterMap fresh? := by rw [hf]; simp
    obtain ⟨y, hy, hid⟩ := List.mem_filterMap.1 hm
    obtain ⟨e', he', ht, rfl⟩ := mem_pastIn.1 hy
    exact ⟨e', he', ht, hid⟩
  | process k t =>
    obtain ⟨d, hd, -⟩ := attempt_of h hw
    rw [Attempt.inserts_of_course hd hx] at hi
    cases hi
  | cancel id =>
    rcases cancelling (h.path hw) with ⟨hl, -⟩ | ⟨a, b, hl, -⟩
    · rw [show s.past n = [] from hl] at hx
      cases hx
    · rw [show s.past n = _ from hl] at hx
      rw [List.mem_singleton.1 hx] at hi
      cases hi
  | list =>
    rcases asked_of_listing (h.path hw) hx with ⟨now, hx⟩ | ⟨now, a, hx⟩ <;> rw [hx] at hi <;>
      cases hi

/-- A task that is about to be stored has a new identifier. -/
lemma not_inserted_of_storing (h : Run f.rules { shared := x₀ } s) {n i : Nat} {r : Request}
    {w : Work (Except EnqueueError TaskId)} {task : Task}
    (hn : s.threads[n]? = some ⟨⟨i, .enqueue r⟩, w⟩)
    (hd : Course (Intake.Advance (f.queue i) r) (Intake.begin (f.queue i) r) (s.past n)
      (.storing task)) : ∀ e ∈ s.log, inserts task.id e.exchange = false := by
  intro e he
  by_contra hi
  have hi : inserts task.id e.exchange = true := by simpa using hi
  obtain ⟨hno, hf, -⟩ := Intake.fresh_of_course hd rfl
  have hm : task.id ∈ (s.past n).filterMap fresh? := by rw [hf]; simp [Intake.ready?]
  obtain ⟨y, hy, hid⟩ := List.mem_filterMap.1 hm
  obtain ⟨e₁, he₁, rfl, rfl⟩ := mem_pastIn.1 hy
  obtain ⟨e₂, he₂, ht, hx⟩ := fresh_of_inserts h he hi
  have hsame : e.thread = e₁.thread := ht.symm.trans (fresh_unique h he₂ he₁ hx hid)
  have := hno task.id e.exchange (mem_pastIn.2 ⟨e, he, hsame, rfl⟩)
  rw [this] at hi
  cases hi

end MailQueue.Fleet

import MailQueue.Proofs.Fleet.Exhaustion
import MailQueue.Proofs.Fleet.Lifecycle
import MailQueue.Proofs.Fleet.Placement

/-!
# What becomes of finished tasks

Where finished tasks are kept, nothing is ever removed. Where they are not, a finished task leaves
the store with the write that finishes it, so that what is stored is to be sent or being sent.

* `kept_since` and `stored_of_taken_in`: a record stays, and a request that was taken in has one;
* `unmarked`: without history no stored task was cancelled or given up;
* `Holder` is a worker between its claim and its last write, and `holder_of_hand` shows that who has
  a task in hand is one, as long as no call of the store fails;
* `retention` is the account of a whole store.
-/

namespace MailQueue

open Queue Interleaving

namespace Attempt

variable {q : Queue} {t : Task} {l : List Fleet.Exchange} {d e : Attempt} {a : Ask} {x : a.Answer}

def removes : Attempt → Bool
  | removing _ | dropping _ => true
  | _ => false

lemma forgets_of_removes_after {index : Nat} {r : Except DeliveryError SendReport}
    (h : (after q t index r).removes = true) : q.config.keepHistory = false := by
  unfold after at h
  cases hk : q.config.keepHistory with
  | false => rfl
  | true =>
    simp only [hk] at h
    split at h
    · cases h
    · split at h <;> cases h

lemma forgets_of_removes (h : Course (Advance q t) (begin t) l d) (hd : d.removes = true) :
    q.config.keepHistory = false := by
  cases h with
  | refl => unfold begin at hd; split at hd <;> cases hd
  | snoc h step =>
    cases step with
    | picked index =>
      rcases chosen_eq (q := q) (t := t) index with ⟨message, he⟩ | ⟨e, he⟩ <;> rw [he] at hd
      · cases hd
      · exact forgets_of_removes_after hd
    | sent => exact forgets_of_removes_after hd
    | _ => cases hd

/-- A write of the task on no condition, as the last one of the work on it: the task is removed, put
back or given up. -/
def lastWrite (id : TaskId) : Ask → Bool
  | .store (.delete i) => i == id
  | .store (.mutate i p) => p.guard.isNone && i == id
  | _ => false

lemma Advance.of_lastWrite {id : TaskId} (h : Advance q t d a x e) (ha : lastWrite id a = true) :
    t.id = id ∧ d.took = true ∧ d.pending = true := by
  cases h with
  | removed | dropped => exact ⟨by simpa [lastWrite] using ha, rfl, rfl⟩
  | marked | putBack =>
    exact ⟨by simpa [lastWrite, Patch.fail, Patch.reschedule] using ha, rfl, rfl⟩
  | _ => cases ha

/-- Where finished tasks are not kept, the write is behind once it is not ahead. -/
lemma wrote_of_course (hk : q.config.keepHistory = false)
    (h : Course (Advance q t) (begin t) l d) (ht : d.took = true) (hp : d.pending = false) :
    ∃ x ∈ l, lastWrite t.id x.1 = true := by
  -- what comes after the attempt to send is a write, there being no history
  have hafter : ∀ (index : Nat) (r : Except DeliveryError SendReport),
      (after q t index r).pending = true := by
    intro index r
    rcases r with e | report
    · by_cases hm : q.config.maxAttempts ≤ (claimed t).attempts <;> simp [after, hk, hm, pending]
    · simp [after, hk, pending]
  induction h with
  | refl => rw [took_begin] at ht; cases ht
  | @snoc l d e a x h step ih =>
    cases step with
    | lost | claimed => cases ht; try cases hp
    | picked index =>
      rcases chosen_eq (q := q) (t := t) index with ⟨message, he⟩ | ⟨e, he⟩ <;> rw [he] at hp
      · cases hp
      · rw [hafter] at hp
        cases hp
    | sent =>
      rw [hafter] at hp
      cases hp
    | timed => cases hp
    | removed | dropped =>
      exact ⟨_, List.mem_append_right _ (List.mem_singleton_self _), beq_self_eq_true t.id⟩
    | marked | putBack =>
      refine ⟨_, List.mem_append_right _ (List.mem_singleton_self _), ?_⟩
      exact beq_self_eq_true t.id
    | told event o =>
      obtain ⟨x, hx, hw⟩ := ih ht rfl
      exact ⟨x, List.mem_append_left _ hx, hw⟩

lemma asks_of_pending (hp : d.pending = true) : ∃ a next, d.work q t = .ask a next := by
  cases d with
  | telling | finished => cases hp
  | _ => exact ⟨_, _, rfl⟩

end Attempt

namespace Fleet

variable {f : Fleet} {x₀ : Shared} {s t : State} {id : TaskId} {u : Task} {n : Nat}

/-! ### Stores that keep finished tasks -/

/-- With history no answer takes a record away. -/
lemma Change.keeps (hk : f.config.keepHistory = true) {j : Job} {x : Exchange} {o : Option Task}
    (ch : Change f s n j id x o) (hu : (stored s id).isSome = true) : o.isSome = true := by
  cases ch with
  | still => exact hu
  | born | joined | taken => rfl
  | withdrawn => simp [hk]
  | ended _ _ hd he =>
    have hforgets := fun hr => Attempt.forgets_of_removes hd hr
    rw [f.shared, hk] at hforgets
    cases he with
    | removed | dropped => cases hforgets rfl
    | putBack | gaveUp => rfl

/-- **With history no step removes a record.** -/
lemma kept_since (hk : f.config.keepHistory = true) (h : f.Reachable s) (h' : Run f.rules s t)
    (hu : (stored s id).isSome = true) : (stored t id).isSome = true := by
  obtain ⟨clock, hr⟩ := h
  refine view_since (P := fun m _ => (m.get? id).isSome = true) hr h' hu ?_
  intro t n j q next a y ht _ asks ha ih
  exact (change ht rfl asks ha id).keeps hk ih

/-- With history whoever was told the task that carries a mail finds it in the store. -/
lemma stored_of_taken_in (hk : f.config.keepHistory = true) (h : f.Reachable s) {i : Nat}
    {r : Request} (hn : s.threads[n]? = some ⟨⟨i, .enqueue r⟩, .done (.ok id)⟩) :
    (stored s id).isSome = true := by
  obtain ⟨clock, hr⟩ := h
  obtain ⟨-, w, pre, e, post, -, -, hlog, -, -, p⟩ :=
    placed (stock_first f clock) (distinct_first f clock) hr hn
  obtain ⟨v, next, x, hv, -, hs, asks, ha, ch, hrun⟩ := change_of_split hr rfl hlog id
  have hafter : (x.store.get? id).isSome = true := by
    cases p with
    | joined _ hu | found _ hu =>
      rw [← hs] at hu
      exact ch.keeps hk (Option.isSome_of_eq_some hu)
    | opened _ hx =>
      obtain ⟨_, _, -, -, -, -, ho⟩ := ch.of_inserts (hx ▸ Intake.inserts_fresh ..)
      rw [ho]
      rfl
  exact kept_since hk ⟨clock, hv.snoc (.answer asks ha)⟩ hrun hafter

/-! ### Stores that do not -/

lemma Change.unmarked (hk : f.config.keepHistory = false) {j : Job} {x : Exchange}
    {o : Option Task} (ch : Change f s n j id x o)
    (h : ∀ u, stored s id = some u → u.cancelled = false ∧ u.failed = false)
    (hu : o = some u) : u.cancelled = false ∧ u.failed = false := by
  cases ch with
  | still => exact h u hu
  | born =>
    obtain rfl := Option.some.inj hu
    exact ⟨rfl, rfl⟩
  | joined _ _ _ hv | taken _ _ _ hv =>
    obtain rfl := Option.some.inj hu
    exact (h _ hv :)
  | withdrawn => simp [hk] at hu
  | ended _ _ hd he =>
    cases he with
    | removed | dropped => cases hu
    | putBack _ _ _ hv =>
      obtain rfl := Option.some.inj hu
      exact (h _ hv :)
    | gaveUp =>
      have hkeep := Attempt.keeping_of_course hd rfl
      rw [f.shared, hk] at hkeep
      cases hkeep

lemma unmarked (hk : f.config.keepHistory = false) (h : f.Reachable s)
    (hu : stored s id = some u) : u.cancelled = false ∧ u.failed = false := by
  obtain ⟨clock, hr⟩ := h
  have key : ∀ u, stored s id = some u → u.cancelled = false ∧ u.failed = false := by
    refine run_view (P := fun m _ _ => ∀ u, m.get? id = some u →
      u.cancelled = false ∧ u.failed = false) (by simp [first, storeOf, Memory.get?]) ?_ hr
    intro s n j q next a y hs asks ha ih u hu
    exact (change hs rfl asks ha id).unmarked hk ih hu
  exact key u hu

/-- The job of this number has claimed the task, and the write by which it will put the task back or
remove it is still to be answered. -/
structure Holder (s : State) (n : Nat) (id : TaskId) : Prop where
  works : ∃ i k t q next, s.threads[n]? = some (⟨⟨i, .process k t⟩, .ask q next⟩ : Thread) ∧
    t.id = id
  hasClaimed : ∃ x ∈ s.past n, (claim? id x).isSome = true
  unresolved : ∀ x ∈ s.past n, Attempt.lastWrite id x.1 = false

/-- A last write that the store has answered was made, the task being there as it was claimed. -/
lemma resolved_of_lastWrite (hx : Stock f x₀) (h : Run f.rules { shared := x₀ } s)
    {e : Entry} (he : e ∈ s.log) (hans : Answered e) {i k : Nat} {t : Task}
    (hj : e.job = ⟨i, .process k t⟩) (hw : Attempt.lastWrite id e.ask = true) :
    resolves id e.exchange = true := by
  obtain ⟨pre, post, hlog⟩ := List.append_of_mem he
  obtain ⟨p, next, y, hp, -, hs, asks, -, -⟩ := h.split hlog
  obtain ⟨n, j, q, a, b⟩ := e
  obtain rfl : j = ⟨i, .process k t⟩ := hj
  obtain ⟨d, hd, hwork⟩ := attempt_of hp asks
  obtain ⟨d', step, -⟩ := Attempt.follow hwork.symm a
  obtain ⟨rfl, htook, hpend⟩ := step.of_lastWrite hw
  obtain ⟨u, hu, -⟩ := (tenure hx hp t.id).held n (holds_of_course hd htook hpend)
  rw [hs] at hu
  cases q with
  | store c =>
    have ha : b.store.Allows c a := hans c a rfl
    cases c with
    | delete i =>
      rw [show a = _ from ha]
      exact hw
    | mutate i patch =>
      obtain ⟨hg, hi⟩ := (Bool.and_eq_true ..).mp hw
      obtain rfl : i = t.id := by simpa using hi
      have hguard : patch.guardHolds u = true := by
        rw [Patch.guardHolds, Option.isNone_iff_eq_none.1 hg]
      have htrue : a = (Except.ok true : Except StoreError Bool) := by
        refine (show a = _ from ha).trans ?_
        show Except.ok (b.store.mutate t.id patch).1 = _
        rw [Memory.mutate_of_guardHolds hu hguard]
      subst htrue
      exact hw
    | _ => cases hw
  | _ => cases hw

/-- Without history, and as long as no call of the store fails, who has a task in hand is at work on
it, and its last write is ahead. -/
lemma holder_of_hand (hk : f.config.keepHistory = false) (hx : Stock f x₀)
    (h : Run f.rules { shared := x₀ } s) (hfl : Faultless s.log) (hand : InHand s.log n id) :
    Holder s n id := by
  obtain ⟨⟨x, hxm, hc⟩, hno⟩ := hand
  obtain ⟨e, he, rfl, rfl⟩ := mem_pastIn.1 hxm
  obtain ⟨pre, post, hlog⟩ := List.append_of_mem he
  obtain ⟨p, next, y, -, -, -, -, -, ch, -⟩ := change_of_split h hx.bound hlog id
  obtain ⟨k, t, -, -, hj, -⟩ := ch.of_claim hc
  obtain ⟨w, hw⟩ := h.thread_of_mem_log he
  obtain ⟨n, ⟨i, duty⟩, q, a, b⟩ := e
  obtain rfl : duty = .process k t := hj
  obtain ⟨d, hd, rfl⟩ := attempt_of h hw
  obtain ⟨rfl, htook⟩ := Attempt.took_of_claim hd hxm hc
  have hunres : ∀ x ∈ s.past n, Attempt.lastWrite t.id x.1 = false := by
    intro x hx'
    rw [← Bool.not_eq_true]
    intro hlast
    obtain ⟨e', he', rfl, rfl⟩ := mem_pastIn.1 hx'
    have hres := resolved_of_lastWrite hx h he' (hfl e' he') (h.job_eq he' hw) hlast
    rw [hno _ hx'] at hres
    cases hres
  have hpend : d.pending = true := by
    by_contra hp
    obtain ⟨x, hx', hlast⟩ :=
      Attempt.wrote_of_course ((f.shared i).symm ▸ hk) hd htook (by simpa using hp)
    rw [hunres x hx'] at hlast
    cases hlast
  obtain ⟨q', next', hask⟩ := Attempt.asks_of_pending (q := f.queue i) (t := t) hpend
  exact ⟨⟨i, k, t, q', next', hask ▸ hw, rfl⟩, ⟨_, hxm, hc⟩, hunres⟩

lemma Holder.inHand (h : Holder s n id) : InHand s.log n id := by
  refine ⟨h.hasClaimed, fun x hx => ?_⟩
  by_contra hr
  have hlast := h.unresolved x hx
  obtain ⟨q, a⟩ := x
  unfold resolves at hr
  split at hr
  · next hx =>
    cases hx
    exact hr hlast
  · next hx =>
    cases hx
    exact hr hlast
  · exact hr rfl

/-! ### A whole store -/

/-- Nobody is at work on a task that a tick has listed, as when no tick is running. -/
def Resting (s : State) : Prop := ∀ th ∈ s.threads, th.job.task?.isSome = true → ended th = true

/-- What a store keeps of its tasks, and for how long. -/
structure Retention (f : Fleet) (s : State) : Prop where
  /-- With history no step removes a record. -/
  kept : f.config.keepHistory = true → ∀ t, Step f.rules s t → ∀ u ∈ s.shared.store.tasks,
    ∃ v ∈ t.shared.store.tasks, v.id = u.id
  /-- With history the identifier that a request has ended with is good for ever. -/
  resolvable : f.config.keepHistory = true → ∀ (n i : Nat) (r : Request) (id : TaskId),
    s.threads[n]? = some (⟨⟨i, .enqueue r⟩, .done (.ok id)⟩ : Thread) →
    ∀ t, Run f.rules s t → ∃ v, stored t id = some v
  /-- Without history no stored task was cancelled or given up. -/
  unmarked : f.config.keepHistory = false → ∀ u ∈ s.shared.store.tasks,
    u.cancelled = false ∧ u.failed = false
  /-- Without history a task that is marked as sent is in the hands of exactly one worker. -/
  held : f.config.keepHistory = false → Faultless s.log → ∀ u ∈ s.shared.store.tasks,
    u.sent = true → ∃! n, Holder s n u.id
  /-- Without history all stored tasks are still to be sent once no tick is running. -/
  atRest : f.config.keepHistory = false → Faultless s.log → Resting s →
    ∀ u ∈ s.shared.store.tasks, u.isOpen = true ∧ u.attempts < f.config.maxAttempts

/-- Without history a task that is marked as sent is held by exactly one worker. -/
lemma exists_unique_holder (hk : f.config.keepHistory = false) (h : f.Reachable s)
    (hfl : Faultless s.log) (hu : stored s id = some u) (hs : u.sent = true) :
    ∃! n, Holder s n id := by
  obtain ⟨clock, hr⟩ := h
  have hx := stock_first f clock
  rcases hand_of_sent hx hr hu hs with ⟨n, hand⟩ | ⟨w, hw, -⟩
  · refine ⟨n, holder_of_hand hk hx hr hfl hand, fun k hold => ?_⟩
    exact (tenure hx hr id).sole k n hold.inHand hand
  · cases hw

/-- Without history a stored task is open when nobody is at work. -/
lemma open_of_resting (hk : f.config.keepHistory = false) (h : f.Reachable s)
    (hfl : Faultless s.log) (hrest : Resting s) (hu : stored s id = some u) : u.isOpen = true := by
  obtain ⟨hcancelled, hfailed⟩ := unmarked hk h hu
  refine Task.isOpen_iff.2 ⟨?_, hcancelled, hfailed⟩
  by_contra hs
  obtain ⟨n, ⟨⟨i, k, t, q, next, hn, -⟩, -⟩, -⟩ :=
    exists_unique_holder hk h hfl hu (by simpa using hs)
  cases hrest _ (List.mem_of_getElem? hn) rfl

/-- **What is stored**, whatever runs beside: with history everything that was ever taken in,
without it what is to be sent and what is being sent. -/
theorem retention (hc : f.config.validate = .ok ()) (h : f.Reachable s) : Retention f s := by
  have hmax := Config.maxAttempts_pos_of_validate hc
  have hreach := h
  obtain ⟨clock, hr⟩ := h
  have hstored : ∀ {u}, u ∈ s.shared.store.tasks → stored s u.id = some u := fun hu =>
    Memory.get?_of_mem (distinct hr rfl (distinct_first f clock)) hu
  refine ⟨fun hk t step u hu => ?_, fun hk n i r id hn t ht => ?_, fun hk u hu => ?_,
    fun hk hfl u hu hs => ?_, fun hk hfl hrest u hu => ?_⟩
  · have hkept := kept_since hk hreach (Run.refl.snoc step) (Option.isSome_of_eq_some (hstored hu))
    obtain ⟨v, hv⟩ := Option.isSome_iff_exists.1 hkept
    exact ⟨v, List.mem_of_find?_eq_some hv, Memory.id_of_get? hv⟩
  · exact Option.isSome_iff_exists.1 (kept_since hk hreach ht (stored_of_taken_in hk hreach hn))
  · exact unmarked hk hreach (hstored hu)
  · exact exists_unique_holder hk hreach hfl (hstored hu) hs
  · have ho := open_of_resting hk hreach hfl hrest (hstored hu)
    exact ⟨ho, (sound_of_stored hmax hreach (hstored hu)).attempts_lt ho⟩

/-- Two requests are taken in, and a tick works on the one that is due. -/
def midway : List Move :=
  [.start 0 (.enqueue (note "a@x" "one")), .name 0 (.ofNat 1), .reply 0,
    .start 1 (.enqueue { note "b@x" "two" with sendAt := some hour }), .name 1 (.ofNat 2), .reply 1,
    .start 0 .list, .reply 2, .reply 2, .takeUp 2, .reply 3, .reply 3]

theorem retention_midway : ∃ s u, (uniform {} [⟨"smtp", none⟩]).config.validate = .ok () ∧
    (uniform {} [⟨"smtp", none⟩]).Reachable s ∧ Faultless s.log ∧
    stored s (.ofNat 1) = some u ∧ u.sent = true ∧ (stored s (.ofNat 2)).isSome = true ∧
    Retention (uniform {} [⟨"smtp", none⟩]) s := by
  have key : (((uniform {} [⟨"smtp", none⟩]).playAll
      { shared := (uniform {} [⟨"smtp", none⟩]).first [] .epoch } midway).any fun s =>
      (stored s (.ofNat 1)).any Task.sent && (stored s (.ofNat 2)).isSome) = true := by
    decide +kernel
  have hc : (uniform {} [⟨"smtp", none⟩]).config.validate = .ok () := by rfl
  obtain ⟨s, hs, hv⟩ := (Option.any_eq_true ..).1 key
  obtain ⟨hu, hother⟩ := (Bool.and_eq_true ..).mp hv
  obtain ⟨u, hu, hsent⟩ := (Option.any_eq_true ..).1 hu
  have hreach := reachable_of_playAll hs
  have hfl : Faultless s.log := faultless_of_playAll hs (by simp [midway]) (by simp [Faultless])
  exact ⟨s, u, hc, hreach, hfl, hu, hsent, hother, retention hc hreach⟩

end Fleet

end MailQueue

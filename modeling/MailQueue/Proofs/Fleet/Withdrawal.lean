import MailQueue.Proofs.Fleet.Play
import MailQueue.Proofs.Fleet.Tenure

/-!
# Cancelling

A cancellation races with workers that have listed the task while it was open and with requests
that are about to join it. Whatever they write afterwards fails its condition, whether the store
keeps cancelled tasks or removes them.

* `Withdraws` is what a granted cancellation comes to, `Refuses` what a refused one leaves;
* `retired_of_withdraws`: a cancelled task is over;
* `hand_of_sent`: a task that is marked as sent was so at first or is in hand;
* `cancellation_final` shows both of each call of each state that can be reached.
-/

namespace MailQueue.Fleet

open Queue Interleaving

variable {f : Fleet} {x₀ : Shared} {tasks : List Task} {s t u : State} {id : TaskId} {v : Task}
  {n : Nat}

/-! ### The step of a call -/

/-- The step from `t` to `u`, on the way to `s`, at which the job of this number got this answer. -/
structure AnsweredAt (f : Fleet) (tasks : List Task) (s : State) (n : Nat) (x : Exchange)
    (t u : State) : Prop where
  reached : f.ReachableOver tasks t
  step : Step f.rules t u
  record : ∃ e, u.log = t.log ++ [e] ∧ e.thread = n ∧ e.exchange = x
  rest : Run f.rules u s

/-- The one question of a call that cancels, and the step at which it was answered. -/
lemma answer_of_cancel {clock : Instant} (h : Run f.rules { shared := f.stocked tasks clock } s)
    {i : Nat} {b : Bool} (hn : s.threads[n]? = some ⟨⟨i, .cancel id⟩, .done b⟩) :
    ∃ t u a, Run f.rules { shared := f.stocked tasks clock } t ∧
      AnsweredAt f tasks s n ⟨.store (.cancel id), a⟩ t u ∧ (b = true ↔ a = .ok true) ∧
      f.Answers i t.shared (.store (.cancel id)) a u.shared ∧
      Change f t n ⟨i, .cancel id⟩ id ⟨.store (.cancel id), a⟩ (stored u id) := by
  rcases cancelling (h.path hn) with ⟨-, hp⟩ | ⟨a, b', hl, hp, hb⟩
  · cases hp
  · cases hp
    have hm : ⟨.store (.cancel id), a⟩ ∈ s.past n := by rw [hl]; exact List.mem_singleton_self _
    obtain ⟨e, he, rfl, hex⟩ := mem_pastIn.1 hm
    obtain ⟨pre, post, hlog⟩ := List.append_of_mem he
    obtain ⟨t, next, y, ht, -, hs, asks, ha, ch, hrun⟩ := change_of_split h rfl hlog id
    obtain ⟨n, j, q, a', before⟩ := e
    obtain rfl : j = ⟨i, .cancel id⟩ := h.job_eq he hn
    cases hex
    exact ⟨t, _, _, ht, ⟨⟨clock, ht⟩, .answer asks ha, ⟨_, rfl, rfl, rfl⟩, hrun⟩, hb, ha, ch⟩

/-! ### A cancellation that is granted -/

def withdrawn (f : Fleet) (v : Task) : Option Task :=
  if f.config.keepHistory then some { v with cancelled := true } else none

/-- A cancellation that is granted, from one state to the next. -/
structure Withdraws (f : Fleet) (id : TaskId) (t u : State) : Prop where
  /-- The task was open. -/
  was_open : ∃ v, stored t id = some v ∧ v.isOpen = true ∧ stored u id = f.withdrawn v
  /-- No message for it had been accepted. -/
  unsent : ∀ e ∈ t.log, sendsFor id e = true → accepts e.exchange = false
  /-- Whatever runs from then on, the task stays as it is, is not sent and not added to. -/
  final : ∀ w, Run f.rules u w → stored w id = stored u id ∧ ∃ post, w.log = u.log ++ post ∧
    ∀ e ∈ post, sendsFor id e = false ∧ appended? id e.exchange = none

lemma not_open_of_withdrawn {w : Task} (h : f.withdrawn v = some w) : w.isOpen = false := by
  unfold withdrawn at h
  split at h
  · obtain rfl := Option.some.inj h
    simp [Task.isOpen]
  · cases h

/-- **A cancelled task is over.** -/
lemma retired_of_withdraws (hx : Stock f x₀) (h : Run f.rules { shared := x₀ } t) {j : Job}
    {x : Exchange} {e : Entry} (ch : Change f t n j id x (stored u id))
    (hw : withdraws id x = true) (hlog : u.log = t.log ++ [e]) (he : e.exchange = x) :
    Retired x₀ id u.shared.store u.log ∧
      (∃ v, stored t id = some v ∧ v.isOpen = true ∧ stored u id = f.withdrawn v) ∧
      ∀ e ∈ t.log, sendsFor id e = true → accepts e.exchange = false := by
  obtain ⟨v, hv, ho, hex, hu⟩ := ch.of_withdraws hw
  obtain ⟨hfree, hno⟩ := (tenure hx h id).free_of_open hv ho
  refine ⟨⟨?_, fun w hw => ?_, fun k hk => ?_⟩, ⟨v, hv, ho, hu⟩, hno⟩
  · rw [hlog]
    exact (known_of_stored hx h hv).mono (List.prefix_append _ _)
  · exact not_open_of_withdrawn (hu.symm.trans hw)
  · rw [hlog, inHand_append_of_quiet (by rw [he, hex]; rfl) (by rw [he, hex]; rfl)] at hk
    exact hfree k hk

/-- After a cancellation that was granted, nothing is recorded of the task. -/
lemma apart_of_withdraws (hx : Stock f x₀) (h : Run f.rules { shared := x₀ } s)
    {pre post : List Entry} {e : Entry} (hlog : s.log = pre ++ e :: post)
    (hw : withdraws id e.exchange = true) : ∀ e' ∈ post, Apart id e' := by
  obtain ⟨t, next, y, ht, hpre, hs, asks, ha, ch, hrun⟩ := change_of_split h hx.bound hlog id
  have hlast := State.log_answered hs next y
  obtain ⟨r, -, -⟩ := retired_of_withdraws hx ht ch hw hlast rfl
  obtain ⟨-, post', hlog', hpost⟩ := r.stays hx (ht.snoc (.answer asks ha)) hrun
  rw [hlast, hpre, hlog, List.append_assoc] at hlog'
  obtain rfl := (List.cons.inj (List.append_cancel_left hlog')).2
  exact hpost

lemma withdraws_once (hx : Stock f x₀) (h : Run f.rules { shared := x₀ } s) {e e' : Entry}
    (he : e ∈ s.log) (he' : e' ∈ s.log) (hw : withdraws id e.exchange = true)
    (hw' : withdraws id e'.exchange = true) : e = e' := by
  have later : ∀ {pre post : List Entry} {d d' : Entry}, s.log = pre ++ d :: post →
      withdraws id d.exchange = true → withdraws id d'.exchange = true → d' ∉ post := by
    intro pre post d d' hlog hd hd' hm
    rw [(apart_of_withdraws hx h hlog hd d' hm).withdraw] at hd'
    cases hd'
  obtain ⟨pre, post, hlog⟩ := List.append_of_mem he
  rw [hlog] at he'
  rcases List.mem_append.1 he' with hm | hm
  · -- the other record came first
    obtain ⟨pre', post', rfl⟩ := List.append_of_mem hm
    rw [List.append_assoc, List.cons_append] at hlog
    exact absurd (List.mem_append_right _ (List.mem_cons_self ..)) (later hlog hw' hw)
  · rcases List.mem_cons.1 hm with rfl | hm
    · rfl
    · exact absurd hm (later hlog hw hw')

/-! ### A cancellation that is refused -/

/-- A task that is marked as sent was so before the answer, or it is the claim. -/
lemma Change.sent_or_taken {j : Job} {q : Ask} {a : q.Answer} {x : Exchange}
    (ch : Change f s n j id x (some v)) (he : (⟨n, j, q, a, s.shared⟩ : Entry).exchange = x)
    (hs : v.sent = true) :
    stored s id = some v ∧ claim? id x = none ∧ resolves id x = false ∨
      InHand (s.log ++ [⟨n, j, q, a, s.shared⟩]) n id := by
  generalize ho : some v = o at ch
  cases ch with
  | still hc hr => exact .inl ⟨rfl, hc, hr⟩
  | born =>
    obtain rfl := Option.some.inj ho
    cases hs
  | joined _ _ _ hu hopen =>
    obtain rfl := Option.some.inj ho
    rw [(Task.isOpen_iff.1 hopen).1] at hs
    cases hs
  | withdrawn _ hu hopen =>
    split at ho
    · obtain rfl := Option.some.inj ho
      rw [(Task.isOpen_iff.1 hopen).1] at hs
      cases hs
    · cases ho
  | @taken k t u _ _ hp =>
    have hc : (claim? id ⟨.store (.mutate id (.claim t.attempts (nextAttempt t.attempts))),
        (Except.ok true : Except StoreError Bool)⟩).isSome = true := by
      simp [claim?, Patch.claim]
    refine .inr ((inHand_append_self (e := ⟨n, j, q, a, s.shared⟩)).2 ?_)
    rw [show pastIn s.log n = [] from hp, List.nil_append, he]
    refine ⟨⟨_, List.mem_singleton_self _, hc⟩, fun y hy => ?_⟩
    rw [List.mem_singleton.1 hy]
    exact not_resolves_of_claim hc
  | ended _ _ _ hends =>
    cases hends with
    | removed | dropped => cases ho
    | putBack | gaveUp =>
      obtain rfl := Option.some.inj ho
      cases hs

/-- **A task that is marked as sent is in hand**, unless it was marked at first. -/
lemma hand_of_sent (hx : Stock f x₀) (h : Run f.rules { shared := x₀ } s)
    (hv : stored s id = some v) (hs : v.sent = true) :
    (∃ k, InHand s.log k id) ∨ ∃ w, x₀.store.get? id = some w ∧ w.sent = true := by
  have key : ∀ v, stored s id = some v → v.sent = true →
      (∃ k, InHand s.log k id) ∨ ∃ w, x₀.store.get? id = some w ∧ w.sent = true := by
    refine run_view (P := fun m _ log => ∀ v, m.get? id = some v → v.sent = true →
      (∃ k, InHand log k id) ∨ ∃ w, x₀.store.get? id = some w ∧ w.sent = true)
      (fun v hv hs => .inr ⟨v, hv, hs⟩) ?_ h
    intro s n j q next a y hr asks ha ih v hv hs
    have ch := change hr hx.bound asks ha id
    rw [hv] at ch
    rcases ch.sent_or_taken (a := a) rfl hs with ⟨hu, hc, hres⟩ | hand
    · refine (ih v hu hs).imp_left fun ⟨k, hk⟩ => ⟨k, ?_⟩
      exact (inHand_append_of_quiet hc hres).2 hk
    · exact .inl ⟨n, hand⟩
  exact key v hv hs

/-- Why a cancellation is refused: the task is absent, a worker has it in hand, or it is over. -/
inductive Barred (tasks : List Task) (id : TaskId) (t : State) : Prop where
  | absent (h : stored t id = none)
  | inHand (k : Nat) (h : InHand t.log k id)
  | cancelled {v : Task} (h : stored t id = some v) (hc : v.cancelled = true)
  | failed {v : Task} (h : stored t id = some v) (hf : v.failed = true)
  /-- It was marked as sent before anything ran. -/
  | sent {v w : Task} (h : stored t id = some v) (hs : v.sent = true) (hw : w ∈ tasks)
      (hid : w.id = id) (hws : w.sent = true)

/-- A cancellation that is refused, from one state to the next: the store is left as it was, and
the task was not to be cancelled, unless the call itself has failed. -/
structure Refuses (tasks : List Task) (id : TaskId) (a : Except StoreError Bool) (t u : State) :
    Prop where
  unchanged : u.shared.store = t.shared.store
  barred : (∀ e, a ≠ .error e) → Barred tasks id t

lemma barred_of_not_open {clock : Instant}
    (h : Run f.rules { shared := f.stocked tasks clock } t)
    (hno : ∀ v, stored t id = some v → v.isOpen = false) : Barred tasks id t := by
  rcases hv : stored t id with _ | v
  · exact .absent hv
  have ho : ¬ v.isOpen = true := by rw [hno v hv]; simp
  rw [Task.isOpen_iff] at ho
  by_cases hc : v.cancelled = true
  · exact .cancelled hv hc
  by_cases hf : v.failed = true
  · exact .failed hv hf
  have hs : v.sent = true := by simp_all
  rcases hand_of_sent (stock_stocked f tasks clock) h hv hs with ⟨k, hk⟩ | ⟨w, hw, hws⟩
  · exact .inHand k hk
  · exact .sent hv hs (List.mem_of_find?_eq_some hw) (Memory.id_of_get? hw) hws

/-- A call that cancels and is answered with false finds no open task and does nothing. -/
lemma not_open_of_refused {i : Nat} {x y : Shared} {a : Except StoreError Bool}
    (hb : x.store.binding = some (Queue.binding f.config))
    (ha : f.Answers i x (.store (.cancel id)) a y) (hne : a ≠ .ok true) :
    y.store = x.store ∧
      ((∀ e, a ≠ .error e) → ∀ v, x.store.get? id = some v → v.isOpen = false) := by
  rcases answers_store ha with ⟨hans, rfl⟩ | ⟨⟨e, hans⟩, rfl⟩
  · simp only [Memory.Allows, Memory.answer, Memory.whenBound, hb] at hans ⊢
    have hc : (x.store.cancel (Queue.binding f.config) id).1 = false := by
      rw [← Bool.not_eq_true]
      exact fun hc => hne (by rw [hans, hc])
    refine ⟨Memory.cancel_eq_false hc, fun _ v hv => ?_⟩
    cases ho : v.isOpen with
    | false => rfl
    | true => simp [Memory.cancel, hv, ho] at hc
  · exact ⟨rfl, fun hno => absurd hans (hno e)⟩

/-! ### Each call -/

/-- The job of this number was a call to cancel the task, and has returned this. -/
def CancelReturned (s : State) (id : TaskId) (n : Nat) (b : Bool) : Prop :=
  ∃ i, s.threads[n]? = some ⟨⟨i, .cancel id⟩, .done b⟩

/-- What can be said, at any moment, of the calls that cancel a task. -/
structure Cancellation (f : Fleet) (tasks : List Task) (s : State) (id : TaskId) : Prop where
  /-- One of them at most is granted. -/
  once : ∀ n k, CancelReturned s id n true → CancelReturned s id k true → n = k
  granted : ∀ n, CancelReturned s id n true → ∃ t u,
    AnsweredAt f tasks s n ⟨.store (.cancel id), (Except.ok true : Except StoreError Bool)⟩ t u ∧
      Withdraws f id t u
  refused : ∀ n, CancelReturned s id n false → ∃ t u a,
    AnsweredAt f tasks s n ⟨.store (.cancel id), a⟩ t u ∧ Refuses tasks id a t u

/-- **Cancelling is final**, whatever runs beside it: one call at most is granted, and after it the
task is never sent nor added to; a call that is refused does nothing. -/
theorem cancellation_final (h : f.ReachableOver tasks s) (id : TaskId) :
    Cancellation f tasks s id := by
  obtain ⟨clock, h⟩ := h
  have hx := stock_stocked f tasks clock
  refine ⟨fun n k hn hk => ?_, fun n hn => ?_, fun n hn => ?_⟩
  · have record : ∀ n, CancelReturned s id n true →
        ∃ e ∈ s.log, e.thread = n ∧ withdraws id e.exchange = true := by
      rintro n ⟨i, hn⟩
      obtain ⟨t, u, a, -, ⟨-, -, ⟨e, hlog, he, hex⟩, hrun⟩, hb, -, -⟩ := answer_of_cancel h hn
      obtain rfl := hb.1 rfl
      refine ⟨e, hrun.log_grows.subset (by rw [hlog]; simp), he, ?_⟩
      rw [hex]
      exact beq_self_eq_true id
    obtain ⟨e, he, rfl, hw⟩ := record n hn
    obtain ⟨e', he', rfl, hw'⟩ := record k hk
    rw [withdraws_once hx h he he' hw hw']
  · obtain ⟨i, hn⟩ := hn
    obtain ⟨t, u, a, ht, hat, hb, -, ch⟩ := answer_of_cancel h hn
    obtain rfl := hb.1 rfl
    obtain ⟨e, hlog, hen, hex⟩ := hat.record
    obtain ⟨r, hopen, hno⟩ := retired_of_withdraws hx ht ch (beq_self_eq_true id) hlog hex
    refine ⟨t, u, hat, hopen, hno, fun w hw => ?_⟩
    obtain ⟨hsame, post, hpost, hap⟩ := r.stays hx (ht.snoc hat.step) hw
    exact ⟨hsame, post, hpost, fun e he => ⟨(hap e he).send, (hap e he).append⟩⟩
  · obtain ⟨i, hn⟩ := hn
    obtain ⟨t, u, a, ht, hat, hb, ha, -⟩ := answer_of_cancel h hn
    have hne : a ≠ .ok true := fun e => by simpa using hb.2 e
    obtain ⟨hsame, hno⟩ := not_open_of_refused (bound ht hx.bound) ha hne
    exact ⟨t, u, a, hat, hsame, fun hok => barred_of_not_open ht (hno hok)⟩

def returned? (s : State) (id : TaskId) (n : Nat) : Option Bool :=
  match s.threads[n]? with
  | some ⟨⟨_, .cancel i⟩, .done b⟩ => if i = id then some b else none
  | _ => none

lemma cancelReturned_of_returned? {b : Bool} (h : returned? s id n = some b) :
    CancelReturned s id n b := by
  unfold returned? at h
  split at h
  · next i j b' hn =>
    split at h
    · next hid =>
      subst hid
      obtain rfl := Option.some.inj h
      exact ⟨i, hn⟩
    · cases h
  · cases h

/-- Two ticks list one task. While the first has it in hand a cancellation is refused; when it was
put back, and a request has found it, a second one is granted. Neither the request nor the other
tick gets at the task any more, and a third cancellation is refused. -/
def lateCancel : List Move :=
  [.start 0 .list, .start 1 .list, .reply 0, .reply 1, .reply 0, .reply 1, .takeUp 0, .takeUp 1,
    .reply 2, .start 0 (.cancel (.ofNat 1)), .reply 4, .reply 2,
    .outcome 2 (.error (.connection "down")), .reply 2, .reply 2, .reply 2,
    .start 0 (.enqueue (note "a@x" "two")), .reply 5, .start 1 (.cancel (.ofNat 1)), .reply 6,
    .reply 5, .reply 5, .name 5 (.ofNat 2), .reply 5, .reply 3, .start 0 (.cancel (.ofNat 1)),
    .reply 7]

/-- Queues that merge mails and keep cancelled tasks. -/
def archive : Fleet :=
  uniform { keepHistory := true, concat := { enabled := true } } [⟨"smtp", none⟩]

theorem cancellation_final_lateCancel : ∃ tasks s, archive.ReachableOver tasks s ∧
    CancelReturned s (.ofNat 1) 4 false ∧ CancelReturned s (.ofNat 1) 6 true ∧
    CancelReturned s (.ofNat 1) 7 false ∧ (stored s (.ofNat 2)).isSome = true ∧
    Cancellation archive tasks s (.ofNat 1) := by
  have key : (archive.playAll
      { shared := archive.stocked [.new (.ofNat 1) (note "a@x" "one").mail .epoch] .epoch }
      lateCancel).map (fun s => (returned? s (.ofNat 1) 4, returned? s (.ofNat 1) 6,
        returned? s (.ofNat 1) 7, (stored s (.ofNat 2)).isSome)) =
      some (some false, some true, some false, true) := by decide +kernel
  obtain ⟨s, hs, hv⟩ := Option.map_eq_some_iff.1 key
  simp only [Prod.mk.injEq] at hv
  obtain ⟨h4, h6, h7, h2⟩ := hv
  have hreach : archive.ReachableOver [.new (.ofNat 1) (note "a@x" "one").mail .epoch] s :=
    ⟨.epoch, run_of_playAll hs⟩
  exact ⟨_, s, hreach, cancelReturned_of_returned? h4, cancelReturned_of_returned? h6,
    cancelReturned_of_returned? h7, h2, cancellation_final hreach _⟩

end MailQueue.Fleet

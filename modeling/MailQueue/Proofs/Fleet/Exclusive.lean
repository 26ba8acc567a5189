import MailQueue.Proofs.Fleet.Play
import MailQueue.Proofs.Fleet.Tenure
import Mathlib.Data.List.Perm.Subperm

/-!
# One worker at a time

Workers hold tasks as they were listed, and what a worker writes after its claim is written without
a condition. That no two of them are at one task, and that no mail goes out twice, rests on an
invariant of the store and the records together.

* `Counted` says what the claims of a task have counted, `Custody` who writes the task beside it;
* `Exclusive` is what it comes to, and `exclusive` shows it of each state that can be reached.
-/

namespace MailQueue.Fleet

open Queue Interleaving

/-! ### Attempts -/

/-- What the claims of a task have counted. -/
structure Counted (f : Fleet) (id : TaskId) (m : Memory) (log : List Entry) : Prop where
  counted : (tries log id).map UInt32.toNat = List.range' 1 (tries log id).length
  current : ∀ u, m.get? id = some u → u.attempts.toNat = (tries log id).length
  bounded : (tries log id).length ≤ f.config.maxAttempts.toNat
  /-- What was never stored is not there and was not claimed. -/
  unborn : (∀ e ∈ log, inserts id e.exchange = false) → m.get? id = none ∧ tries log id = []

section Steps

variable {f : Fleet} {id : TaskId} {m m' : Memory} {log : List Entry} {e : Entry} {u : Task}

lemma tries_append (log : List Entry) (e : Entry) (id : TaskId) :
    tries (log ++ [e]) id = tries log id ++ (claim? id e.exchange).toList := by
  rw [tries, List.filterMap_append]
  rcases h : claim? id e.exchange with _ | a <;> simp [tries, h]

lemma Counted.record (c : Counted f id m log) (hc : claim? id e.exchange = none)
    (hv : ∀ v, m'.get? id = some v → (∃ u, m.get? id = some u ∧ v.attempts = u.attempts) ∨
      inserts id e.exchange = true ∧ v.attempts = 0 ∧
        ∀ e' ∈ log, inserts id e'.exchange = false) : Counted f id m' (log ++ [e]) := by
  have ht : tries (log ++ [e]) id = tries log id := by rw [tries_append, hc]; simp
  refine ⟨?_, fun v hv' => ?_, ?_, fun hall => ?_⟩
  · simpa only [ht] using c.counted
  · rw [ht]
    rcases hv v hv' with ⟨u, hu, ha⟩ | ⟨-, ha, hno⟩
    · rw [ha, c.current u hu]
    · rw [ha, (c.unborn hno).2]
      rfl
  · simpa only [ht] using c.bounded
  · obtain ⟨hnone, htries⟩ := c.unborn fun e' he' => hall e' (List.mem_append_left _ he')
    refine ⟨Option.eq_none_iff_forall_ne_some.2 fun v hv' => ?_, ht.trans htries⟩
    rcases hv v hv' with ⟨u, hu, -⟩ | ⟨hi, -, -⟩
    · cases hnone.symm.trans hu
    · rw [hall e (by simp)] at hi
      cases hi

lemma Counted.taken (c : Counted f id m log) (hu : m.get? id = some u) {a : UInt32}
    (ha : u.attempts = a) (hmax : a < f.config.maxAttempts)
    (hc : claim? id e.exchange = some (nextAttempt a))
    (hv : m'.get? id = some { u with attempts := nextAttempt a, sent := true }) :
    Counted f id m' (log ++ [e]) := by
  have ht : tries (log ++ [e]) id = tries log id ++ [nextAttempt a] := by
    rw [tries_append, hc]; rfl
  have hn : (nextAttempt a).toNat = (tries log id).length + 1 := by
    rw [Attempt.toNat_nextAttempt hmax, ← ha, c.current u hu]
  refine ⟨?_, fun v hv' => ?_, ?_, fun hall => ?_⟩
  · rw [ht, List.map_append, c.counted, List.length_append, List.length_singleton,
      List.range'_1_concat, List.map_singleton, hn, Nat.add_comm]
  · rw [← Option.some.inj (hv.symm.trans hv'), ht, List.length_append]
    exact hn
  · have := UInt32.lt_iff_toNat_lt.1 hmax
    rw [Attempt.toNat_nextAttempt hmax] at hn
    rw [ht, List.length_append, List.length_singleton]
    omega
  · have hnone := (c.unborn fun e' he' => hall e' (List.mem_append_left _ he')).1
    cases hnone.symm.trans hu

end Steps

/-! ### Each state that can be reached -/

section Reachable

variable {f : Fleet} {s : State} {id : TaskId}

lemma Counted.changed {x₀ : Shared} (h : Run f.rules { shared := x₀ } s)
    (hb : x₀.store.binding = some (Queue.binding f.config)) {n : Nat} {j : Job} {q : Ask}
    {next : q.Answer → Work j.Result} {a : q.Answer} {m' : Memory} {x : Exchange}
    {o : Option Task} (c : Counted f id s.shared.store s.log)
    (asks : s.threads[n]? = some ⟨j, .ask q next⟩) (ch : Change f s n j id x o)
    (he : (⟨n, j, q, a, s.shared⟩ : Entry).exchange = x) (ho : m'.get? id = o) :
    Counted f id m' (s.log ++ [⟨n, j, q, a, s.shared⟩]) := by
  obtain ⟨i, duty⟩ := j
  cases ch with
  | still hc => exact c.record (he ▸ hc) fun v hv => .inl ⟨v, ho.symm.trans hv, rfl⟩
  | born hj hd =>
    obtain rfl := hj
    refine c.record (he ▸ rfl) fun v hv => .inr ⟨he ▸ Intake.inserts_fresh .., ?_,
      not_inserted_of_storing h asks hd⟩
    rw [← Option.some.inj (ho.symm.trans hv)]
    rfl
  | joined _ _ _ hu =>
    refine c.record (he ▸ rfl) fun v hv => .inl ⟨_, hu, ?_⟩
    rw [← Option.some.inj (ho.symm.trans hv)]
  | withdrawn _ hu =>
    refine c.record (he ▸ rfl) fun v hv => .inl ⟨_, hu, ?_⟩
    have hv := ho.symm.trans hv
    split at hv
    · rw [← Option.some.inj hv]
    · cases hv
  | taken hj ht _ hu _ hat =>
    obtain rfl := hj
    refine c.taken hu hat (due_of_process h hb asks).2 ?_ ho
    rw [he]
    simp [claim?, Patch.claim]
  | ended _ _ _ hends =>
    refine c.record (he ▸ hends.record.1) fun v hv => .inl ?_
    have hv := ho.symm.trans hv
    cases hends with
    | removed | dropped => cases hv
    | putBack _ _ _ hu | gaveUp _ hu =>
      refine ⟨_, hu, ?_⟩
      rw [← Option.some.inj hv]

/-- **The claims of a task** that is not there at first count its attempts. -/
theorem counted_of_absent {x₀ : Shared} (h : Run f.rules { shared := x₀ } s)
    (hb : x₀.store.binding = some (Queue.binding f.config)) (hn : x₀.store.get? id = none) :
    Counted f id s.shared.store s.log := by
  refine run_view (P := fun m _ log => Counted f id m log) ?_ ?_ h
  · constructor <;> simp [tries, hn]
  · intro s n j q next a y hs asks ha c
    exact c.changed hs hb asks (change hs hb asks ha id) rfl rfl

theorem counted (h : f.Reachable s) (id : TaskId) : Counted f id s.shared.store s.log := by
  obtain ⟨clock, h⟩ := h
  exact counted_of_absent h rfl (by simp [first, storeOf, Memory.get?])

/-- What the store and the records say together of one task. -/
structure Custody (f : Fleet) (id : TaskId) (m : Memory) (log : List Entry) : Prop where
  sole : ∀ n k, InHand log n id → InHand log k id → n = k
  /-- A task in hand is stored, and not open. -/
  held : ∀ n, InHand log n id → ∃ u, m.get? id = some u ∧ u.isOpen = false
  counted : (tries log id).map UInt32.toNat = List.range' 1 (tries log id).length
  current : ∀ u, m.get? id = some u → u.attempts.toNat = (tries log id).length
  bounded : (tries log id).length ≤ f.config.maxAttempts.toNat
  /-- Once a message was accepted the task is not open, and only who sent it may have it in hand. -/
  closed : ∀ e ∈ log, sendsFor id e = true → accepts e.exchange = true →
    (∀ u, m.get? id = some u → u.isOpen = false) ∧ ∀ k, InHand log k id → k = e.thread
  /-- What was never stored is not there and was not claimed. -/
  unborn : (∀ e ∈ log, inserts id e.exchange = false) → m.get? id = none ∧ tries log id = []

theorem custody (h : f.Reachable s) (id : TaskId) : Custody f id s.shared.store s.log := by
  have c := counted h id
  obtain ⟨clock, h⟩ := h
  have t := tenure (stock_first f clock) h id
  refine ⟨t.sole, fun n hn => ?_, c.counted, c.current, c.bounded, t.closed, c.unborn⟩
  obtain ⟨u, hu, held⟩ := t.held n hn
  exact ⟨u, hu, held.not_open⟩

/-- **One worker at a time.** What can be said, at any moment, of the task under an identifier. -/
structure Exclusive (f : Fleet) (s : State) (id : TaskId) : Prop where
  /-- At most one job is between its claim of the task and the write that resolves it. -/
  sole : ∀ n k, InHand s.log n id → InHand s.log k id → n = k
  /-- The claims have written the attempts 1, 2, 3 and so on. -/
  counted : (tries s.log id).map UInt32.toNat = List.range' 1 (tries s.log id).length
  /-- The stored task names the attempt of the last claim. -/
  current : ∀ t, stored s id = some t → t.attempts.toNat = (tries s.log id).length
  bounded : (tries s.log id).length ≤ f.config.maxAttempts.toNat
  /-- Who hands a message over has the task in hand, by one claim. -/
  own : ∀ pre e post, s.log = pre ++ e :: post → sendsFor id e = true →
    InHand pre e.thread id ∧ ((pastIn pre e.thread).filterMap (claim? id)).length = 1
  /-- No job hands two messages over. -/
  apart : (sends s.log id).Pairwise fun e e' => e.thread ≠ e'.thread
  /-- There are no more messages than claims. -/
  sent_le : (sends s.log id).length ≤ (tries s.log id).length
  /-- After a message was accepted no other is handed over. -/
  final : s.log.Pairwise fun e e' =>
    sendsFor id e = true → accepts e.exchange = true → sendsFor id e' = false

lemma sends_apart {x₀ : Shared} (h : Run f.rules { shared := x₀ } s) (id : TaskId) :
    (sends s.log id).Pairwise fun e e' => e.thread ≠ e'.thread := by
  rw [List.pairwise_iff_forall_sublist]
  intro e e' hsub hthread
  have hs : ∀ e'' ∈ [e, e'], e'' ∈ s.log ∧ sendsFor id e'' = true := fun e'' he =>
    List.mem_filter.1 (hsub.subset he)
  obtain ⟨he, hse⟩ := hs e (by simp)
  obtain ⟨he', hse'⟩ := hs e' (by simp)
  obtain ⟨-, -, o, -, -, ho⟩ := job_of_sendsFor hse
  obtain ⟨-, -, o', -, -, ho'⟩ := job_of_sendsFor hse'
  -- two messages of one job would be two outcomes among its answers
  have hpast : [e.exchange, e'.exchange].Sublist (s.past e.thread) := by
    have := ((hsub.trans List.filter_sublist).filter fun e'' => e''.thread == e.thread).map
      Entry.exchange
    simpa [hthread, State.past, pastIn] using this
  have htwo := (hpast.filterMap outcome?).length_le
  have := outcomes_le_one h he hse
  simp [ho, ho'] at htwo
  omega

/-- **Any number of queues on one store**: no task is ever in two hands, no attempt is counted
twice, and no mail goes out again once it was accepted. -/
theorem exclusive (h : f.Reachable s) (id : TaskId) : Exclusive f s id := by
  have c := custody h id
  obtain ⟨clock, hr⟩ := h
  have own : ∀ pre e post, s.log = pre ++ e :: post → sendsFor id e = true →
      InHand pre e.thread id ∧ ((pastIn pre e.thread).filterMap (claim? id)).length = 1 := by
    intro pre e post hlog hs
    obtain ⟨t, next, x, ht, rfl, hx, asks, -, -⟩ := hr.split hlog
    have he : e = ⟨e.thread, e.job, e.ask, e.answer, t.shared⟩ := by rw [hx]
    rw [he] at hs
    obtain ⟨hand, -, hone⟩ := inHand_of_sends ht asks hs
    exact ⟨hand, hone⟩
  have apart := sends_apart hr id
  refine ⟨c.sole, c.counted, c.current, c.bounded, own, apart, ?_, ?_⟩
  · -- the jobs that send are as many as the messages, and each of them has claimed
    have hnodup : ((sends s.log id).map Entry.thread).Nodup := List.pairwise_map.2 apart
    have hsub : (sends s.log id).map Entry.thread ⊆
        (s.log.filter fun e => (claim? id e.exchange).isSome).map Entry.thread := by
      intro n hn
      obtain ⟨e, he, rfl⟩ := List.mem_map.1 hn
      obtain ⟨he, hs⟩ := List.mem_filter.1 he
      obtain ⟨e', he', ht, hc⟩ := claimed_of_sends hr he hs
      exact List.mem_map.2 ⟨e', List.mem_filter.2 ⟨he', hc⟩, ht⟩
    have hlen := (List.subperm_of_subset hnodup hsub).length_le
    rw [List.length_map, List.length_map] at hlen
    rw [tries, List.length_filterMap_eq_countP, List.countP_eq_length_filter]
    exact hlen
  · rw [List.pairwise_iff_forall_sublist]
    intro e e' hsub hs ha
    by_contra hs'
    have hs' : sendsFor id e' = true := by simpa using hs'
    obtain ⟨l, l', hlog, he, he'⟩ := List.cons_sublist_iff.1 hsub
    obtain ⟨pre, post, rfl⟩ := List.append_of_mem (List.singleton_sublist.1 he')
    rw [← List.append_assoc] at hlog
    obtain ⟨t, -, -, ht, hpre, -⟩ := hr.split hlog
    -- when the second message was handed over, only the sender of the first had the task in hand
    have c' := custody ⟨clock, ht⟩ id
    rw [hpre] at c'
    have hmine := (c'.closed e (List.mem_append_left _ he) hs ha).2 _ (own _ _ _ hlog hs').1
    have htwo : [e, e'].Sublist (sends s.log id) := by
      have := hsub.filter (sendsFor id)
      rwa [List.filter_cons_of_pos hs, List.filter_cons_of_pos hs', List.filter_nil] at this
    exact List.pairwise_iff_forall_sublist.1 apart htwo hmine.symm

end Reachable

/-- Two ticks list one task. The first to claim it fails to send and puts it back, the other has
lost the claim, and a third tick sends. -/
def race : List Move :=
  [.start 0 (.enqueue (note "a@x" "one")), .name 0 (.ofNat 1), .reply 0,
    .start 0 .list, .start 1 .list, .reply 1, .reply 2, .reply 1, .reply 2,
    .takeUp 1, .takeUp 2, .reply 3, .reply 4, .reply 3,
    .outcome 3 (.error (.connection "down")), .reply 3, .reply 3, .reply 3,
    .clock hour, .start 1 .list, .reply 5, .reply 5,
    .takeUp 5, .reply 6, .reply 6, .outcome 6 (.report { accepted := ["a@x"] }), .reply 6]

theorem exclusive_race : ∃ s, (uniform {} [⟨"smtp", none⟩]).Reachable s ∧
    (tries s.log (.ofNat 1)).map UInt32.toNat = [1, 2] ∧ (sends s.log (.ofNat 1)).length = 2 ∧
    Exclusive (uniform {} [⟨"smtp", none⟩]) s (.ofNat 1) := by
  have key : ((uniform {} [⟨"smtp", none⟩]).playAll
      { shared := (uniform {} [⟨"smtp", none⟩]).first [] .epoch } race).map (fun s =>
        ((tries s.log (.ofNat 1)).map UInt32.toNat, (sends s.log (.ofNat 1)).length)) =
      some ([1, 2], 2) := by decide +kernel
  obtain ⟨s, hs, hv⟩ := Option.map_eq_some_iff.1 key
  obtain ⟨ht, hn⟩ := Prod.mk.inj hv
  exact ⟨s, reachable_of_playAll hs, ht, hn, exclusive (reachable_of_playAll hs) _⟩

end MailQueue.Fleet

import MailQueue.Proofs.Fleet.Ending
import MailQueue.Proofs.Fleet.Exclusive
import MailQueue.Proofs.Fleet.Lifecycle

/-!
# Transports in turn

Under the backup strategy a task moves on to the next transport after so many failures. Which
transport an attempt goes through follows from its number alone, whatever the ticks and whatever
else is in the store.

* `TransportPool.afterFailure_of_backup` is the rule for one failure;
* `turn_of_open`: an open task names the transport of its next attempt;
* `Retired.unlisted`: a task that is over is not listed again.
-/

namespace MailQueue

/-! ### The transport after a failure -/

namespace TransportPool

variable {p : TransportPool}

lemma select_of_backup (hs : p.strategy = .backup) (cursor stored : Nat) :
    (p.select cursor stored).1 = stored := by
  simp [select, hs]

lemma afterFailure_of_backup (hs : p.strategy = .backup) (hpos : 0 < p.size)
    (hle : p.size ≤ indexCount) {failures : Nat} {attempts : UInt32}
    (ha : attempts.toNat = failures + 1) :
    p.afterFailure (failures / p.failsToNext.toNat % p.size) attempts =
      (failures + 1) / p.failsToNext.toNat % p.size := by
  have hlt : failures / p.failsToNext.toNat % p.size < p.size := Nat.mod_lt _ hpos
  simp only [afterFailure, hs, ha]
  by_cases hdvd : p.failsToNext.toNat ∣ failures + 1
  · rw [if_pos ⟨Nat.mod_eq_zero_of_dvd hdvd, Nat.ne_of_gt hpos⟩, Nat.succ_div_of_dvd hdvd]
    -- the index wraps only where it is the last of as many as there can be
    have hle' : failures / p.failsToNext.toNat % p.size + 1 ≤ indexCount := Nat.le_trans hlt hle
    rcases Nat.lt_or_eq_of_le hle' with h | h
    · rw [Nat.mod_eq_of_lt h, Nat.mod_add_mod]
    · have hsize : p.size = indexCount := by omega
      rw [← hsize, Nat.mod_mod, Nat.mod_add_mod]
  · rw [if_neg fun h => hdvd (Nat.dvd_of_mod_eq_zero h.1), Nat.succ_div_of_not_dvd hdvd]

end TransportPool

namespace Fleet

open Queue Interleaving

variable {f : Fleet} {size : Nat} {x₀ : Shared} {tasks : List Task} {s s' : State} {id : TaskId}
  {u v : Task} {n : Nat}

/-! ### Queues that are built of the same settings -/

/-- The queues are built of the settings of the fleet, each over so many transports of its own. -/
structure Built (f : Fleet) (size : Nat) : Prop where
  build : ∀ i, ∃ transports resolve, transports.length = size ∧
    Queue.build f.config true transports resolve = .ok (f.queue i)
  backup : f.config.strategy = .backup
  pos : 0 < size
  /-- There is an index for each transport. -/
  le : size ≤ TransportPool.indexCount

lemma Built.wire (hb : f.Built size) (i : Nat) : f.config.fault? = none ∧
    ∃ transports resolve, transports.length = size ∧
      f.queue i = Queue.wire f.config transports resolve := by
  obtain ⟨transports, resolve, hlen, h⟩ := hb.build i
  obtain ⟨hf, hq⟩ := Queue.wire_of_build h
  exact ⟨hf, transports, resolve, hlen, hq⟩

lemma Built.pool (hb : f.Built size) (i : Nat) : (f.queue i).pool.strategy = .backup ∧
    (f.queue i).pool.size = size ∧ (f.queue i).pool.failsToNext = f.config.failsToNext := by
  obtain ⟨hf, transports, resolve, hlen, hq⟩ := hb.wire i
  have hpos := Config.failsToNext_pos_of_fault? hf
  simp only [hq, Queue.wire, TransportPool.new, TransportPool.size, dif_pos hpos, hlen, hb.backup,
    and_self]

/-- The transport for a task that has failed so many times. -/
def turn (f : Fleet) (size failures : Nat) : Nat := failures / f.config.failsToNext.toNat % size

lemma Built.afterFailure (hb : f.Built size) (i : Nat) {failures : Nat} {attempts : UInt32}
    (ha : attempts.toNat = failures + 1) :
    (f.queue i).pool.afterFailure (f.turn size failures) attempts =
      f.turn size (failures + 1) := by
  obtain ⟨hs, hsize, hk⟩ := hb.pool i
  have := TransportPool.afterFailure_of_backup hs (hsize ▸ hb.pos) (hsize ▸ hb.le) ha
  rwa [hsize, hk] at this

lemma Built.pick_eq (hb : f.Built size) {i : Nat} {x y : Shared} {stored index : Nat}
    (ha : f.Answers i x (.pick stored) index y) : index = stored := by
  cases ha with
  | pick => exact TransportPool.select_of_backup (hb.pool i).1 _ _

lemma Built.picked (hb : f.Built size) (h : Run f.rules { shared := x₀ } s) {stored index : Nat}
    (hx : ⟨.pick stored, index⟩ ∈ s.past n) : index = stored := by
  obtain ⟨e, he, -, hex⟩ := mem_pastIn.1 hx
  obtain ⟨pre, post, hlog⟩ := List.append_of_mem he
  obtain ⟨t, _, x, -, -, -, -, ha, -⟩ := h.split hlog
  obtain ⟨m, j, q, a, before⟩ := e
  cases hex
  exact hb.pick_eq ha

/-! ### The transport that a task names -/

/-- An open task names the transport of its next attempt. -/
def Turning (f : Fleet) (size : Nat) (id : TaskId) (m : Memory) : Prop :=
  ∀ u, m.get? id = some u → u.isOpen = true → u.transport = f.turn size u.attempts.toNat

/-- A task that is worked on names the transport of that attempt, if tasks did where it was
listed. -/
lemma turn_of_process (h : Run f.rules { shared := x₀ } s) (hx : Stock f x₀)
    (hd : x₀.store.Distinct) (hlog : ∀ e ∈ s.log, Turning f size id e.before.store)
    {i k : Nat} {t : Task} {w : Work TaskOutcome}
    (hn : s.threads[n]? = some ⟨⟨i, .process k t⟩, w⟩) (ht : t.id = id) :
    t.transport = f.turn size t.attempts.toNat := by
  obtain ⟨e, he, now, due, -, -, hex, hm⟩ := listed_of_process h hn
  subst ht
  exact hlog e he t (listed_as_stored h hx.bound hd he hex hm) (due_of_process h hx.bound hn).1

lemma Turning.changed (hb : f.Built size) (hx : Stock f x₀)
    (h : Run f.rules { shared := x₀ } s) {j : Job} {q : Ask} {next : q.Answer → Work j.Result}
    {x : Exchange} (asks : s.threads[n]? = some ⟨j, .ask q next⟩)
    (ch : Change f s n j id x (some v)) (hm : Turning f size id s.shared.store)
    (hturn : ∀ k t, j.duty = .process k t → t.id = id →
      t.transport = f.turn size t.attempts.toNat)
    (ho : v.isOpen = true) : v.transport = f.turn size v.attempts.toNat := by
  obtain ⟨i, duty⟩ := j
  generalize hv : some v = o at ch
  cases ch with
  | still => exact hm v hv.symm ho
  | born =>
    obtain rfl := Option.some.inj hv
    simp [Intake.fresh, Task.new, turn]
  | joined _ _ _ hu hopen =>
    obtain rfl := Option.some.inj hv
    have := hm _ hu hopen
    exact this
  | withdrawn =>
    split at hv
    · obtain rfl := Option.some.inj hv
      simp [Task.isOpen] at ho
    · cases hv
  | taken =>
    obtain rfl := Option.some.inj hv
    simp [Task.isOpen] at ho
  | @ended k t d _ _ hj ht hd hends =>
    obtain rfl := hj
    have htransport := hturn k t rfl ht
    subst ht
    cases hends with
    | removed | dropped => cases hv
    | gaveUp =>
      obtain rfl := Option.some.inj hv
      simp [Task.isOpen] at ho
    | @putBack u retryAt transport e hu =>
      obtain rfl := Option.some.inj hv
      obtain ⟨w, hw, held⟩ := (tenure hx h t.id).held n (holds_of_course hd rfl rfl)
      obtain rfl := Option.some.inj (hu.symm.trans hw)
      have hnext := Attempt.toNat_nextAttempt (due_of_process h hx.bound asks).2
      obtain ⟨index, hpick, rfl⟩ := Attempt.rotated_of_course hd
      rw [hb.picked h hpick, htransport]
      show _ = f.turn size u.attempts.toNat
      rw [held.attempts_eq hd rfl, hnext]
      exact hb.afterFailure i hnext

/-- **An open task names the transport of its next attempt**, and so did each that was ever found
open. -/
theorem turn_of_open (hb : f.Built size) (hx : Stock f x₀) (hd : x₀.store.Distinct)
    (hn : x₀.store.get? id = none) (h : Run f.rules { shared := x₀ } s) :
    Turning f size id s.shared.store ∧ ∀ e ∈ s.log, Turning f size id e.before.store := by
  refine run_view (P := fun m _ log =>
    Turning f size id m ∧ ∀ e ∈ log, Turning f size id e.before.store) ?_ ?_ h
  · refine ⟨fun u hu => ?_, by simp⟩
    cases hn.symm.trans hu
  · rintro s n ⟨i, duty⟩ q next a y hs asks ha ⟨hm, hlog⟩
    refine ⟨fun v hv ho => ?_, fun e he => ?_⟩
    · have ch := change hs hx.bound asks ha id
      rw [hv] at ch
      refine Turning.changed hb hx hs asks ch hm ?_ ho
      rintro k t rfl ht
      exact turn_of_process hs hx hd hlog asks ht
    · rcases List.mem_append.1 he with he | he
      · exact hlog e he
      · obtain rfl := List.mem_singleton.1 he
        exact hm

/-! ### Tasks that are over -/

def lists (id : TaskId) : Exchange → Bool
  | ⟨.store (.due _), .ok due⟩ => due.any fun
    | .task t => t.id == id
    | _ => false
  | _ => false

lemma not_lists_of_closed {i : Nat} {x y : Shared} {q : Ask} {a : q.Answer}
    (hd : x.store.Distinct)
    (hc : ∀ u, x.store.get? id = some u → u.isOpen = false) (ha : f.Answers i x q a y) :
    lists id ⟨q, a⟩ = false := by
  cases ha with
  | now | freshId | pick | send | tell => rfl
  | fault c e => cases c <;> rfl
  | @store c a ha =>
    cases c with
    | due now =>
      by_contra hl
      rcases a with e | due
      · exact hl rfl
      · rw [Bool.not_eq_false, lists, List.any_eq_true] at hl
        obtain ⟨d, hm, hid⟩ := hl
        cases d with
        | unreadable | mark => cases hid
        | task t =>
          obtain rfl : t.id = id := by simpa using hid
          obtain ⟨b, -, ht, hdue⟩ := Memory.mem_of_due ha hm
          have ho := hc t (Memory.get?_of_mem hd ht)
          rw [(Task.isDue_iff.1 hdue).1] at ho
          cases ho
    | _ => rfl

/-- **A task that is over is not listed again**, whatever runs. -/
theorem Retired.unlisted (hx : Stock f x₀) (hd : x₀.store.Distinct)
    (h : Run f.rules { shared := x₀ } s) (r : Retired x₀ id s.shared.store s.log)
    (h' : Run f.rules s s') : ∀ e ∈ s'.log.drop s.log.length, lists id e.exchange = false := by
  refine view_since (P := fun _ log => ∀ e ∈ log.drop s.log.length, lists id e.exchange = false)
    h h' (by simp) ?_
  intro t n j q next a y ht hst asks ha ih e he
  rw [List.drop_append_of_le_length hst.log_grows.length_le] at he
  rcases List.mem_append.1 he with he | he
  · exact ih e he
  · obtain rfl := List.mem_singleton.1 he
    exact not_lists_of_closed (distinct ht hx.bound hd)
      (r.since hx h hst).1.closed ha

/-- The last write of who has the task in hand makes an end of it, if it leaves no open task. -/
lemma retired_of_resolves (hx : Stock f x₀) (h : Run f.rules { shared := x₀ } s) {j : Job} {q : Ask}
    {a : q.Answer} {m : Memory} (hand : InHand s.log n id)
    (hr : resolves id ⟨q, a⟩ = true) (hc : ∀ u, m.get? id = some u → u.isOpen = false) :
    Retired x₀ id m (s.log ++ [⟨n, j, q, a, s.shared⟩]) := by
  obtain ⟨u, hu, -⟩ := (tenure hx h id).held n hand
  refine ⟨(known_of_stored hx h hu).mono (List.prefix_append _ _), hc, fun k hk => ?_⟩
  rcases eq_or_ne n k with rfl | hne
  · exact not_holds_of_resolves hr (inHand_append_self.1 hk)
  · exact hne ((tenure hx h id).sole _ _ hand ((inHand_append_of_ne hne).1 hk))

end Fleet

end MailQueue

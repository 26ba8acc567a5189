import MailQueue.Proofs.Fleet.Attempt
import MailQueue.Proofs.Fleet.Intake
import MailQueue.Proofs.Memory

/-!
# What one answer does to one task

Everything that can happen to the task under an identifier, with what is known of the job that asks
when it happens. The invariants of a fleet are derived from this list alone.

* `Ends` is the write that ends the work on a task, `Change` any answer;
* `change_of_answer`: no answer does anything else.
-/

namespace MailQueue.Fleet

open Queue Interleaving

/-! ### What is known of a job that asks -/

section Jobs

variable {f : Fleet} {x₀ : Shared} {s : State} {n i k : Nat} {t : Task} {r : Request}

lemma attempt_of (h : Run f.rules { shared := x₀ } s) {w : Work TaskOutcome}
    (hn : s.threads[n]? = some ⟨⟨i, .process k t⟩, w⟩) :
    ∃ d, Course (Attempt.Advance (f.queue i) t) (Attempt.begin t) (s.past n) d ∧
      w = d.work (f.queue i) t :=
  Attempt.course (h.path hn)

lemma intake_of (h : Run f.rules { shared := x₀ } s) {w : Work (Except EnqueueError TaskId)}
    (hn : s.threads[n]? = some ⟨⟨i, .enqueue r⟩, w⟩) :
    ∃ d, Course (Intake.Advance (f.queue i) r) (Intake.begin (f.queue i) r) (s.past n) d ∧
      w = d.work (f.queue i) r :=
  Intake.course (h.path hn)

end Jobs

/-! ### The changes -/

/-- The write that ends the work on the task under an identifier, and what it leaves of the task
that was there. -/
inductive Ends (id : TaskId) (v : Option Task) : Attempt → Exchange → Option Task → Prop where
  | removed (r : SendReport) (b : Bool) :
      Ends id v (.removing r) ⟨.store (.delete id), (Except.ok b : Except StoreError Bool)⟩ none
  | dropped (e : DeliveryError) (b : Bool) :
      Ends id v (.dropping e) ⟨.store (.delete id), (Except.ok b : Except StoreError Bool)⟩ none
  | putBack {u : Task} (retryAt : Instant) (transport : Nat) (e : DeliveryError)
      (hu : v = some u) :
      Ends id v (.puttingBack retryAt transport e)
        ⟨.store (.mutate id (.reschedule retryAt transport)),
          (Except.ok true : Except StoreError Bool)⟩
        (some { u with sent := false, sendAt := retryAt, transport := transport })
  | gaveUp {u : Task} (e : DeliveryError) (hu : v = some u) :
      Ends id v (.marking e)
        ⟨.store (.mutate id .fail), (Except.ok true : Except StoreError Bool)⟩
        (some { u with sent := false, failed := true })

lemma Ends.record {id : TaskId} {v o : Option Task} {d : Attempt} {x : Exchange}
    (h : Ends id v d x o) :
    claim? id x = none ∧ resolves id x = true ∧ outcome? x = none ∧ inserts id x = false := by
  cases h <;> refine ⟨rfl, ?_, rfl, rfl⟩ <;> simp [resolves, Patch.reschedule, Patch.fail]

lemma Ends.state {id : TaskId} {v o : Option Task} {d : Attempt} {x : Exchange}
    (h : Ends id v d x o) : d.took = true ∧ d.pending = true := by
  cases h <;> exact ⟨rfl, rfl⟩

/-- What one answer to a job does to the task under an identifier. -/
inductive Change (f : Fleet) (s : State) (n : Nat) (j : Job) (id : TaskId) :
    Exchange → Option Task → Prop where
  /-- Nothing. -/
  | still {x : Exchange} (hc : claim? id x = none) (hr : resolves id x = false)
      (hi : inserts id x = false) (ha : appended? id x = none) (hw : withdraws id x = false) :
      Change f s n j id x (stored s id)
  /-- A request opens the task. -/
  | born {r : Request} {sendAt : Instant} (hj : j.duty = .enqueue r)
      (hd : Course (Intake.Advance (f.queue j.queue) r) (Intake.begin (f.queue j.queue) r)
        (s.past n) (.storing (Intake.fresh r id sendAt)))
      (hs : stored s id = none) :
      Change f s n j id
        ⟨.store (.insert (Intake.fresh r id sendAt)), (Except.ok () : Except StoreError Unit)⟩
        (some (Intake.fresh r id sendAt))
  /-- A request joins the task, which is as it was looked up but for what no append checks. -/
  | joined {r : Request} {t u : Task} {windowEnd : Instant} {rounds : Nat}
      (hj : j.duty = .enqueue r) (ht : t.id = id)
      (hd : Course (Intake.Advance (f.queue j.queue) r) (Intake.begin (f.queue j.queue) r)
        (s.past n) (.joining t windowEnd rounds))
      (hu : stored s id = some u) (ho : u.isOpen = true) (ha : u.attempts = t.attempts)
      (hl : u.fragments.length = t.fragments.length) :
      Change f s n j id
        ⟨.store (.mutate id (appendPatch t r.mail)), (Except.ok true : Except StoreError Bool)⟩
        (some { u with fragments := t.fragments ++ [r.mail] })
  /-- The task is taken out of the queue. -/
  | withdrawn {u : Task} (hj : j.duty = .cancel id) (hu : stored s id = some u)
      (ho : u.isOpen = true) :
      Change f s n j id ⟨.store (.cancel id), (Except.ok true : Except StoreError Bool)⟩
        (if f.config.keepHistory then some { u with cancelled := true } else none)
  /-- The task is claimed. -/
  | taken {k : Nat} {t u : Task} (hj : j.duty = .process k t) (ht : t.id = id)
      (hp : s.past n = []) (hu : stored s id = some u) (ho : u.isOpen = true)
      (ha : u.attempts = t.attempts) :
      Change f s n j id
        ⟨.store (.mutate id (.claim t.attempts (nextAttempt t.attempts))),
          (Except.ok true : Except StoreError Bool)⟩
        (some { u with attempts := nextAttempt t.attempts, sent := true })
  /-- The work on the task ends with a write. -/
  | ended {k : Nat} {t : Task} {d : Attempt} {x : Exchange} {o : Option Task}
      (hj : j.duty = .process k t) (ht : t.id = id)
      (hd : Course (Attempt.Advance (f.queue j.queue) t) (Attempt.begin t) (s.past n) d)
      (he : Ends id (stored s id) d x o) : Change f s n j id x o

/-- A claim is the first thing its worker does. It finds the task open, with as many attempts as
when the task was listed. -/
lemma Change.of_claim {f : Fleet} {s : State} {n : Nat} {j : Job} {id : TaskId} {x : Exchange}
    {o : Option Task} (ch : Change f s n j id x o) (hx : (claim? id x).isSome = true) :
    ∃ k t u, s.past n = [] ∧ j.duty = .process k t ∧ stored s id = some u ∧ u.isOpen = true ∧
      u.attempts = t.attempts ∧
        o = some { u with attempts := nextAttempt t.attempts, sent := true } := by
  cases ch with
  | still hc => rw [hc] at hx; cases hx
  | born | joined | withdrawn => cases hx
  | ended _ _ _ he => rw [he.record.1] at hx; cases hx
  | taken hj _ hp hu ho ha => exact ⟨_, _, _, hp, hj, hu, ho, ha, rfl⟩

/-- Who joins a task finds it open, with as many attempts as when it was looked up. -/
lemma Change.of_append {f : Fleet} {s : State} {n : Nat} {j : Job} {id : TaskId} {t : Task}
    {m : Mail} {o : Option Task}
    (ch : Change f s n j id ⟨.store (.mutate id (appendPatch t m)),
      (Except.ok true : Except StoreError Bool)⟩ o) :
    ∃ u, stored s id = some u ∧ u.isOpen = true ∧ u.attempts = t.attempts := by
  generalize hx : (⟨.store (.mutate id (appendPatch t m)),
    (Except.ok true : Except StoreError Bool)⟩ : Exchange) = x at ch
  have hg : ∀ p, x = ⟨.store (.mutate id p), (Except.ok true : Except StoreError Bool)⟩ →
      p.guard = some (.appendable t.attempts t.fragments.length) := by
    rintro p rfl
    cases hx
    rfl
  cases ch with
  | still _ _ _ ha =>
    rw [← hx, appended?_append] at ha
    cases ha
  | joined _ _ _ hu ho ha =>
    have hguard := hg _ rfl
    simp only [appendPatch, Patch.guarded, Option.some.injEq, Guard.appendable.injEq] at hguard
    exact ⟨_, hu, ho, ha.trans hguard.1⟩
  | born | withdrawn => cases hx
  | taken => cases hg _ rfl
  | ended _ _ _ he =>
    cases he with
    | removed | dropped => cases hx
    | putBack | gaveUp => cases hg _ rfl

/-- A task is stored anew by a request, where there was none. -/
lemma Change.of_inserts {f : Fleet} {s : State} {n : Nat} {j : Job} {id : TaskId} {x : Exchange}
    {o : Option Task} (ch : Change f s n j id x o) (hx : inserts id x = true) :
    ∃ r sendAt, j.duty = .enqueue r ∧ Course (Intake.Advance (f.queue j.queue) r)
        (Intake.begin (f.queue j.queue) r) (s.past n) (.storing (Intake.fresh r id sendAt)) ∧
      stored s id = none ∧ x = ⟨.store (.insert (Intake.fresh r id sendAt)), .ok ()⟩ ∧
      o = some (Intake.fresh r id sendAt) := by
  cases ch with
  | still _ _ hi => rw [hi] at hx; cases hx
  | born hj hd hs => exact ⟨_, _, hj, hd, hs, rfl, rfl⟩
  | joined | withdrawn | taken => cases hx
  | ended _ _ _ he => rw [he.record.2.2.2] at hx; cases hx

/-- A cancellation that is granted finds the task open. -/
lemma Change.of_withdraws {f : Fleet} {s : State} {n : Nat} {j : Job} {id : TaskId} {x : Exchange}
    {o : Option Task} (ch : Change f s n j id x o) (hx : withdraws id x = true) :
    ∃ u, stored s id = some u ∧ u.isOpen = true ∧ x = ⟨.store (.cancel id), .ok true⟩ ∧
      o = if f.config.keepHistory then some { u with cancelled := true } else none := by
  cases ch with
  | still _ _ _ _ hw => rw [hw] at hx; cases hx
  | withdrawn _ hu ho => exact ⟨_, hu, ho, rfl, rfl⟩
  | born | joined | taken => cases hx
  | ended _ _ _ he => cases he <;> cases hx

/-! ### No answer does anything else -/

section

variable {f : Fleet} {x₀ : Shared} {s : State} {n : Nat} {j : Job} {id : TaskId} {keep : Bool}
  {c : Store.Call} {x : c.Answer}

def target : Store.Call → Option TaskId
  | .insert task => some task.id
  | .mutate i _ | .delete i | .cancel i => some i
  | _ => none

lemma effect_of_target_ne (h : target c ≠ some id) (o : Option Task) :
    c.effect keep id x o = o := by
  cases c with
  | due | look | find => rfl
  | insert task =>
    have hi : task.id ≠ id := fun e => h (congrArg some e)
    rcases x with e | u
    · rfl
    · exact if_neg hi
  | mutate i p =>
    have hi : i ≠ id := fun e => h (congrArg some e)
    rcases x with e | _ | _
    · rfl
    · rfl
    · exact if_neg hi
  | delete i =>
    have hi : i ≠ id := fun e => h (congrArg some e)
    rcases x with e | b
    · rfl
    · exact if_neg hi
  | cancel i =>
    have hi : i ≠ id := fun e => h (congrArg some e)
    rcases x with e | _ | _
    · rfl
    · rfl
    · exact if_neg hi

lemma still_of_target_ne (h : target c ≠ some id) :
    Change f s n j id ⟨.store c, x⟩ (c.effect keep id x (stored s id)) := by
  rw [effect_of_target_ne h]
  cases c with
  | due | look | find => exact .still rfl rfl rfl rfl rfl
  | insert task =>
    have hi : task.id ≠ id := fun e => h (congrArg some e)
    rcases x with e | u
    · exact .still rfl rfl rfl rfl rfl
    · exact .still rfl rfl (beq_false_of_ne hi) rfl rfl
  | mutate i p =>
    have hi : i ≠ id := fun e => h (congrArg some e)
    rcases x with e | _ | _
    · exact .still rfl rfl rfl rfl rfl
    · exact .still rfl rfl rfl rfl rfl
    · refine .still ?_ (by simp [resolves, hi]) rfl (if_neg hi) rfl
      simp only [claim?, if_neg hi]
      split <;> rfl
  | delete i =>
    have hi : i ≠ id := fun e => h (congrArg some e)
    rcases x with e | b
    · exact .still rfl rfl rfl rfl rfl
    · exact .still rfl (beq_false_of_ne hi) rfl rfl rfl
  | cancel i =>
    have hi : i ≠ id := fun e => h (congrArg some e)
    rcases x with e | _ | _
    · exact .still rfl rfl rfl rfl rfl
    · exact .still rfl rfl rfl rfl rfl
    · exact .still rfl rfl rfl rfl (beq_false_of_ne hi)

lemma still_of_failed (e : StoreError) :
    Change f s n j id ⟨.store c, c.failed e⟩ (stored s id) := by
  cases c <;> exact .still rfl rfl rfl rfl rfl

lemma mutate_answer {m : Memory} {p : Patch} {b : Except StoreError Bool}
    (h : m.Allows (.mutate id p) b) :
    b = .ok false ∨ b = .ok true ∧ ∃ u, m.get? id = some u ∧ p.guardHolds u = true := by
  obtain rfl : b = .ok (m.mutate id p).1 := h
  rcases hb : (m.mutate id p).1 with _ | _
  · exact .inl rfl
  · exact .inr ⟨rfl, Memory.mutate_eq_true hb⟩

lemma change_of_enqueue {r : Request} (hj : j.duty = .enqueue r)
    {d e : Intake} (hd : Course (Intake.Advance (f.queue j.queue) r)
      (Intake.begin (f.queue j.queue) r) (s.past n) d)
    (step : Intake.Advance (f.queue j.queue) r d (.store c) x e)
    (hx : s.shared.store.Allows c x) (hc : target c = some id) :
    Change f s n j id ⟨.store c, x⟩ (c.effect keep id x (stored s id)) := by
  cases step with
  | looked => cases hc
  | joined t windowEnd rounds answer =>
    obtain rfl : t.id = id := Option.some.inj hc
    rcases mutate_answer hx with rfl | ⟨rfl, u, hu, hg⟩
    · exact .still rfl rfl rfl rfl rfl
    · have hu' : stored s t.id = some u := hu
      simp only [Store.Call.effect, if_true, hu', Option.map_some]
      -- the condition compares the number of mails, and not the mails
      simp only [appendPatch, Patch.guardHolds, Patch.guarded, Guard.holds, Bool.and_eq_true,
        beq_iff_eq] at hg
      obtain ⟨⟨ho, ha⟩, hl⟩ := hg
      exact .joined hj rfl hd hu' ho ha hl
  | stored task answer =>
    obtain rfl : task.id = id := Option.some.inj hc
    obtain ⟨id, sendAt, rfl⟩ := Intake.eq_fresh_of_storing hd
    rcases answer with e | u
    · exact .still rfl rfl rfl rfl rfl
    · have hs := Memory.insert_eq_ok (Eq.symm hx)
      simp only [Store.Call.effect, if_true]
      exact .born hj hd hs

lemma change_of_process {k : Nat} {t : Task} (hj : j.duty = .process k t) {d e : Attempt}
    (hd : Course (Attempt.Advance (f.queue j.queue) t) (Attempt.begin t) (s.past n) d)
    (step : Attempt.Advance (f.queue j.queue) t d (.store c) x e)
    (hx : s.shared.store.Allows c x) (hc : target c = some id) :
    Change f s n j id ⟨.store c, x⟩ (c.effect keep id x (stored s id)) := by
  cases step with
  | lost hne =>
    rcases mutate_answer hx with rfl | ⟨rfl, -⟩
    · exact .still rfl rfl rfl rfl rfl
    · exact absurd rfl hne
  | claimed =>
    obtain rfl : t.id = id := Option.some.inj hc
    rcases mutate_answer hx with hx | ⟨-, u, hu, hg⟩
    · cases hx
    · have hu' : stored s t.id = some u := hu
      simp only [Store.Call.effect, if_true, hu', Option.map_some]
      simp only [Patch.claim, Patch.guardHolds, Guard.holds, Bool.and_eq_true, beq_iff_eq] at hg
      exact .taken hj rfl (Attempt.eq_nil_of_claiming hd) hu' hg.1 hg.2
  | removed r answer =>
    obtain rfl : t.id = id := Option.some.inj hc
    obtain rfl : answer = .ok _ := hx
    simp only [Store.Call.effect, if_true]
    exact .ended hj rfl hd (.removed r _)
  | dropped e answer =>
    obtain rfl : t.id = id := Option.some.inj hc
    obtain rfl : answer = .ok _ := hx
    simp only [Store.Call.effect, if_true]
    exact .ended hj rfl hd (.dropped e _)
  | marked e answer =>
    obtain rfl : t.id = id := Option.some.inj hc
    rcases mutate_answer hx with rfl | ⟨rfl, u, hu, -⟩
    · exact .still rfl rfl rfl rfl rfl
    · have hu' : stored s t.id = some u := hu
      simp only [Store.Call.effect, if_true, hu', Option.map_some]
      exact .ended hj rfl hd (.gaveUp e hu')
  | putBack retryAt transport e answer =>
    obtain rfl : t.id = id := Option.some.inj hc
    rcases mutate_answer hx with rfl | ⟨rfl, u, hu, -⟩
    · exact .still rfl rfl rfl rfl rfl
    · have hu' : stored s t.id = some u := hu
      simp only [Store.Call.effect, if_true, hu', Option.map_some]
      exact .ended hj rfl hd (.putBack retryAt transport e hu')

lemma change_of_cancel (hj : j.duty = .cancel id)
    (hb : s.shared.store.binding = some (Queue.binding f.config)) {x : Except StoreError Bool}
    (hx : s.shared.store.Allows (.cancel id) x) :
    Change f s n j id ⟨.store (.cancel id), x⟩
      (Store.Call.effect f.config.keepHistory id (.cancel id) x (stored s id)) := by
  have hx' : x = .ok (s.shared.store.cancel (Queue.binding f.config) id).1 := by
    refine (show x = _ from hx).trans ?_
    simp only [Memory.answer, Memory.whenBound, hb]
  rcases hc : (s.shared.store.cancel (Queue.binding f.config) id).1 with _ | _
  · rw [hx', hc]
    exact .still rfl rfl rfl rfl rfl
  · rw [hx', hc]
    obtain ⟨u, hu, ho⟩ := Memory.cancel_eq_true hc
    have hu' : stored s id = some u := hu
    simp only [Store.Call.effect, if_true, hu', Option.map_some]
    exact .withdrawn hj hu' ho

/-- **No answer does anything else** to the task under an identifier. -/
theorem change_of_answer {x₀ : Shared} (h : Run f.rules { shared := x₀ } s)
    (hb : s.shared.store.binding = some (Queue.binding f.config)) {q : Ask}
    {next : q.Answer → Work j.Result} {a : q.Answer} {y : Shared}
    (asks : s.threads[n]? = some ⟨j, .ask q next⟩) (ha : f.Answers j.queue s.shared q a y)
    (id : TaskId) : Change f s n j id ⟨q, a⟩ (y.store.get? id) := by
  cases ha with
  | now | freshId | pick | send | tell => exact .still rfl rfl rfl rfl rfl
  | fault c e => exact still_of_failed e
  | @store c a ha =>
    simp only
    rw [Memory.get?_of_allows hb ha id]
    by_cases hc : target c = some id
    swap
    · exact still_of_target_ne hc
    obtain ⟨i, duty⟩ := j
    cases duty with
    | enqueue r =>
      obtain ⟨d, hd, hw⟩ := intake_of h asks
      obtain ⟨e, step, -⟩ := Intake.follow hw.symm a
      exact change_of_enqueue rfl hd step ha hc
    | process k t =>
      obtain ⟨d, hd, hw⟩ := attempt_of h asks
      obtain ⟨e, step, -⟩ := Attempt.follow hw.symm a
      exact change_of_process rfl hd step ha hc
    | list =>
      rcases listing (h.path asks) with ⟨-, hp⟩ | ⟨now, -, hp⟩ | ⟨o, hp, -, -⟩
      · cases hp
      · cases hp; cases hc
      · cases hp
    | cancel i =>
      rcases cancelling (h.path asks) with ⟨-, hp⟩ | ⟨_, _, -, hp, -⟩
      · cases hp
        obtain rfl : i = id := Option.some.inj hc
        exact change_of_cancel rfl hb ha
      · cases hp

end

end MailQueue.Fleet

import MailQueue.Proofs.Fleet.Record

/-!
# The work on a task, step by step

`Queue.process` as a machine: how far the work has come is a value, and each answer leads from one
to the next.

* `Attempt.work` is the work that is left, with `work_begin` for the whole of it;
* `Attempt.Advance` says where an answer leads, and `follow` that the work goes there;
* `Attempt.course` turns what was asked and answered into a course of the machine;
* `claims_of_course`, `resolves_of_course`, `outcomes_of_course` and `delivered_iff` tell what was
  asked when the work has come to a state.
-/

namespace MailQueue

open Queue

/-- How far the work on a task has come. -/
inductive Attempt where
  | claiming
  | picking
  | sending (index : Nat) (message : Mail)
  /-- The message was taken; the task is to go. -/
  | removing (report : SendReport)
  /-- The last attempt has failed; the task is to be kept as given up. -/
  | marking (error : DeliveryError)
  /-- The last attempt has failed; the task is to go. -/
  | dropping (error : DeliveryError)
  /-- The attempt has failed; the time decides when to try again. -/
  | timing (index : Nat) (error : DeliveryError)
  | puttingBack (retryAt : Instant) (transport : Nat) (error : DeliveryError)
  | telling (event : Event) (outcome : TaskOutcome)
  | finished (outcome : TaskOutcome)

namespace Attempt

variable (q : Queue) (t : Task)

def begin : Attempt := if t.isOpen then claiming else finished .skipped

/-- What a call of a transport comes to. -/
def verdict (index : Nat) : SendOutcome → Except DeliveryError SendReport
  | .report r => if r.accepted.isEmpty then .error .notAccepted else .ok r
  | .error e => .error (.transport index e)
  | .crash text => .error (.crashed text)

/-- How the work goes on after the attempt to send. -/
def after (index : Nat) : Except DeliveryError SendReport → Attempt
  | .ok r =>
    if q.config.keepHistory then telling (.sent (claimed t) r) .sent else removing r
  | .error e =>
    if q.config.maxAttempts ≤ (claimed t).attempts then
      if q.config.keepHistory then marking e else dropping e
    else timing index e

/-- How the work goes on with a transport. -/
def chosen (index : Nat) : Attempt :=
  match q.pool.get? index with
  | none => after q t index (.error (.noTransport index))
  | some transport =>
    match q.compiler.compile transport (claimed t) with
    | .error e => after q t index (.error (.compile e))
    | .ok message => sending index message

def gaveUp (e : DeliveryError) : Attempt := telling (.failed (claimed t) e .gaveUp) .failed

def putBack (retryAt : Instant) (transport : Nat) (e : DeliveryError) : Attempt :=
  telling (.failed (claimed t) e (.rescheduled retryAt transport)) .rescheduled

def conclude (index : Nat) : Except DeliveryError SendReport → Work TaskOutcome
  | .ok report => q.settle (claimed t) report
  | .error e => q.handleFailure (claimed t) index e

def carryOut : Work TaskOutcome := do
  let index ← Queue.pick t.transport
  conclude q t index (← q.deliver index (claimed t))

def work : Attempt → Work TaskOutcome
  | claiming => do
    match ← call (.mutate t.id (.claim t.attempts (nextAttempt t.attempts))) with
    | .error _ => return .skipped
    | .ok false => return .skipped
    | .ok true => carryOut q t
  | picking => carryOut q t
  | sending index message => do
    conclude q t index (verdict index (← send index message))
  | removing report => do
    let _ ← call (.delete t.id)
    tell (.sent (claimed t) report)
    return .sent
  | marking e => do
    let _ ← call (.mutate t.id .fail)
    tell (.failed (claimed t) e .gaveUp)
    return .failed
  | dropping e => do
    let _ ← call (.delete t.id)
    tell (.failed (claimed t) e .gaveUp)
    return .failed
  | timing index e => do
    let now ← askNow
    let transport := q.pool.afterFailure index (claimed t).attempts
    let retryAt := q.retry.retryAt now (claimed t).attempts
    let _ ← call (.mutate t.id (.reschedule retryAt transport))
    tell (.failed (claimed t) e (.rescheduled retryAt transport))
    return .rescheduled
  | puttingBack retryAt transport e => do
    let _ ← call (.mutate t.id (.reschedule retryAt transport))
    tell (.failed (claimed t) e (.rescheduled retryAt transport))
    return .rescheduled
  | telling event outcome => do
    tell event
    return outcome
  | finished outcome => return outcome

inductive Advance : Attempt → (a : Ask) → a.Answer → Attempt → Prop where
  | lost {answer : Except StoreError Bool} (h : answer ≠ .ok true) :
      Advance claiming (.store (.mutate t.id (.claim t.attempts (nextAttempt t.attempts)))) answer
        (finished .skipped)
  | claimed :
      Advance claiming (.store (.mutate t.id (.claim t.attempts (nextAttempt t.attempts))))
        (Except.ok true : Except StoreError Bool) picking
  | picked (index : Nat) : Advance picking (.pick t.transport) index (chosen q t index)
  | sent (index : Nat) (message : Mail) (outcome : SendOutcome) :
      Advance (sending index message) (.send index message) outcome
        (after q t index (verdict index outcome))
  | removed (report : SendReport) (answer : Except StoreError Bool) :
      Advance (removing report) (.store (.delete t.id)) answer
        (telling (.sent (Queue.claimed t) report) .sent)
  | marked (e : DeliveryError) (answer : Except StoreError Bool) :
      Advance (marking e) (.store (.mutate t.id .fail)) answer (gaveUp t e)
  | dropped (e : DeliveryError) (answer : Except StoreError Bool) :
      Advance (dropping e) (.store (.delete t.id)) answer (gaveUp t e)
  | timed (index : Nat) (e : DeliveryError) (now : Instant) :
      Advance (timing index e) .now now
        (puttingBack (q.retry.retryAt now (Queue.claimed t).attempts)
          (q.pool.afterFailure index (Queue.claimed t).attempts) e)
  | putBack (retryAt : Instant) (transport : Nat) (e : DeliveryError)
      (answer : Except StoreError Bool) :
      Advance (puttingBack retryAt transport e)
        (.store (.mutate t.id (.reschedule retryAt transport))) answer
        (putBack t retryAt transport e)
  | told (event : Event) (outcome : TaskOutcome) :
      Advance (telling event outcome) (.tell event) () (finished outcome)

variable {q t}

theorem work_begin : (begin t).work q t = q.process t := by
  unfold begin process
  cases t.isOpen <;> rfl

/-- What follows an attempt to send is the work of the state that `after` names. -/
theorem work_after (index : Nat) (r : Except DeliveryError SendReport) :
    (after q t index r).work q t = conclude q t index r := by
  cases r with
  | ok report =>
    simp only [after, conclude, settle]
    cases q.config.keepHistory <;> rfl
  | error e =>
    simp only [after, conclude, handleFailure]
    split
    · cases q.config.keepHistory <;> rfl
    · rfl

theorem work_chosen (index : Nat) :
    (chosen q t index).work q t =
      (do conclude q t index (← q.deliver index (claimed t))) := by
  unfold chosen deliver
  rcases q.pool.get? index with _ | transport
  · exact work_after index _
  · simp only
    rcases q.compiler.compile transport (claimed t) with e | message
    · exact work_after index _
    · simp only [work, send, Program.question, bind, pure, Program.bind]
      congr 1
      funext outcome
      cases outcome <;> rfl

theorem follow {d : Attempt} {a : Ask} {next : a.Answer → Work TaskOutcome}
    (h : d.work q t = .ask a next) (x : a.Answer) :
    ∃ e, Advance q t d a x e ∧ next x = e.work q t := by
  cases d with
  | claiming =>
    cases h
    rcases x with e | _ | _
    · exact ⟨_, .lost (by simp), rfl⟩
    · exact ⟨_, .lost (by simp), rfl⟩
    · exact ⟨_, .claimed, rfl⟩
  | picking =>
    cases h
    exact ⟨_, .picked x, (work_chosen x).symm⟩
  | sending index message =>
    cases h
    exact ⟨_, .sent index message x, (work_after index (verdict index x)).symm⟩
  | removing report => cases h; exact ⟨_, .removed report x, rfl⟩
  | marking e => cases h; exact ⟨_, .marked e x, rfl⟩
  | dropping e => cases h; exact ⟨_, .dropped e x, rfl⟩
  | timing index e => cases h; exact ⟨_, .timed index e x, rfl⟩
  | puttingBack retryAt transport e => cases h; exact ⟨_, .putBack retryAt transport e x, rfl⟩
  | telling event outcome => cases h; exact ⟨_, .told event outcome, rfl⟩
  | finished outcome => cases h

/-- The course of the work on a task. -/
theorem course {l : List (Exchange Ask Ask.Answer)} {p : Work TaskOutcome}
    (h : Program.Path (q.process t) l p) :
    ∃ d, Course (Advance q t) (begin t) l d ∧ p = d.work q t := by
  rw [← work_begin] at h
  exact course_of_path follow h

end Attempt

end MailQueue

namespace MailQueue.Attempt

open Queue Fleet

/-- The claim was made. -/
def took : Attempt → Bool
  | claiming => false
  | telling _ o | finished o => o != .skipped
  | _ => true

/-- The write that ends the work is still ahead. -/
def pending : Attempt → Bool
  | telling .. | finished _ => false
  | _ => true

/-- No transport has been asked yet. -/
def unsent : Attempt → Bool
  | claiming | picking | sending .. => true
  | telling _ o | finished o => o == .skipped
  | _ => false

def delivered : Attempt → Bool
  | removing _ => true
  | telling _ o | finished o => o == .sent
  | _ => false

variable {q : Queue} {t : Task} {l : List Fleet.Exchange} {d e : Attempt} {id : TaskId} {a : Ask}
  {x : a.Answer}

lemma after_eq (index : Nat) (r : Except DeliveryError SendReport) :
    (∃ e, r = .error e ∧ (after q t index r = marking e ∨ after q t index r = dropping e ∨
      after q t index r = timing index e)) ∨
    ∃ report, r = .ok report ∧ (after q t index r = removing report ∨
      after q t index r = telling (.sent (claimed t) report) .sent) := by
  unfold after
  rcases r with e | report
  · refine .inl ⟨e, rfl, ?_⟩
    by_cases hm : q.config.maxAttempts ≤ (claimed t).attempts
    · cases hk : q.config.keepHistory <;> simp [hm]
    · simp [hm]
  · refine .inr ⟨report, rfl, ?_⟩
    cases hk : q.config.keepHistory <;> simp

lemma chosen_eq (index : Nat) :
    (∃ message, chosen q t index = sending index message) ∨
      ∃ e, chosen q t index = after q t index (.error e) := by
  unfold chosen
  rcases q.pool.get? index with _ | transport
  · exact .inr ⟨_, rfl⟩
  · simp only
    rcases q.compiler.compile transport (claimed t) with e | message
    · exact .inr ⟨_, rfl⟩
    · exact .inl ⟨_, rfl⟩

lemma took_after (index : Nat) (r : Except DeliveryError SendReport) :
    (after q t index r).took = true := by
  rcases after_eq (q := q) (t := t) index r with ⟨e, -, h | h | h⟩ | ⟨report, -, h | h⟩ <;>
    rw [h] <;> rfl

lemma took_chosen (index : Nat) : (chosen q t index).took = true := by
  rcases chosen_eq (q := q) (t := t) index with ⟨message, h⟩ | ⟨e, h⟩ <;> rw [h]
  · rfl
  · exact took_after index _

lemma unsent_after (index : Nat) (r : Except DeliveryError SendReport) :
    (after q t index r).unsent = false := by
  rcases after_eq (q := q) (t := t) index r with ⟨e, -, h | h | h⟩ | ⟨report, -, h | h⟩ <;>
    rw [h] <;> rfl

lemma toNat_nextAttempt {a b : UInt32} (h : a < b) : (nextAttempt a).toNat = a.toNat + 1 := by
  have h' := UInt32.lt_iff_toNat_lt.1 h
  have hb := b.toNat_lt
  have hne : a ≠ 4294967295 := by
    rintro rfl
    simp at h'
    omega
  rw [nextAttempt, if_neg hne, UInt32.toNat_add]
  simp
  omega

lemma lt_nextAttempt {a b : UInt32} (h : a < b) : a < nextAttempt a := by
  rw [UInt32.lt_iff_toNat_lt, toNat_nextAttempt h]
  omega

/-! ### What one answer tells -/

/-- The claim is made by the first answer or not at all. -/
lemma Advance.claims (h : Advance q t d a x e) (id : TaskId) :
    (claim? id ⟨a, x⟩ = none ∧ e.took = d.took) ∨
      (d = claiming ∧ e = picking ∧
        claim? id ⟨a, x⟩ = if t.id = id then some (nextAttempt t.attempts) else none) := by
  cases h with
  | @lost answer hx =>
    rcases answer with _ | _ | _
    · exact .inl ⟨rfl, rfl⟩
    · exact .inl ⟨rfl, rfl⟩
    · exact absurd rfl hx
  | claimed => exact .inr ⟨rfl, rfl, rfl⟩
  | picked index => exact .inl ⟨rfl, took_chosen index⟩
  | sent index message outcome => exact .inl ⟨rfl, took_after index _⟩
  | marked _ x | putBack _ _ _ x =>
    rcases x with _ | _ | _ <;> exact .inl ⟨rfl, rfl⟩
  | _ => exact .inl ⟨rfl, rfl⟩

/-- What is written after the claim is the last write of the work, and of its own task. -/
lemma Advance.writes (h : Advance q t d a x e) :
    ((∀ id, resolves id ⟨a, x⟩ = false) ∧ (e.pending → d.pending)) ∨
      (d.took ∧ d.pending ∧ e.pending = false ∧
        ∀ id, t.id ≠ id → resolves id ⟨a, x⟩ = false) := by
  cases h with
  | @lost answer hx =>
    rcases answer with _ | _ | _
    · exact .inl ⟨fun _ => rfl, fun _ => rfl⟩
    · exact .inl ⟨fun _ => rfl, fun _ => rfl⟩
    · exact absurd rfl hx
  | removed _ x | dropped _ x =>
    refine .inr ⟨rfl, rfl, rfl, fun id hid => ?_⟩
    rcases x with _ | _
    · rfl
    · simpa [resolves] using hid
  | marked _ x | putBack _ _ _ x =>
    refine .inr ⟨rfl, rfl, rfl, fun id hid => ?_⟩
    rcases x with _ | _ | _
    · rfl
    · rfl
    · simpa [resolves] using fun _ => hid
  | told => exact .inl ⟨fun _ => rfl, by simp [pending]⟩
  | _ => exact .inl ⟨fun _ => rfl, fun _ => rfl⟩

lemma delivered_after (index : Nat) (r : Except DeliveryError SendReport) :
    (after q t index r).delivered = r.toBool := by
  rcases after_eq (q := q) (t := t) index r with ⟨e, rfl, h | h | h⟩ | ⟨report, rfl, h | h⟩ <;>
    rw [h] <;> rfl

lemma delivered_chosen (index : Nat) : (chosen q t index).delivered = false := by
  rcases chosen_eq (q := q) (t := t) index with ⟨message, h⟩ | ⟨e, h⟩ <;> rw [h]
  · rfl
  · exact delivered_after index _

lemma Advance.outcome (h : Advance q t d a x e) :
    (outcome? ⟨a, x⟩ = none ∧ (e.unsent → d.unsent) ∧ e.delivered = d.delivered) ∨
      ∃ index message o, d = sending index message ∧ e = after q t index (verdict index o) ∧
        (⟨a, x⟩ : Fleet.Exchange) = ⟨.send index message, o⟩ := by
  cases h with
  | sent index message outcome => exact .inr ⟨index, message, outcome, rfl, rfl, rfl⟩
  | picked index => exact .inl ⟨rfl, fun _ => rfl, delivered_chosen index⟩
  | _ => exact .inl ⟨rfl, by simp [unsent, gaveUp, Attempt.putBack], rfl⟩

lemma accepts_send (index : Nat) (message : Mail) (o : SendOutcome) :
    accepts ⟨.send index message, o⟩ = (verdict index o).toBool := by
  rcases o with r | e | c
  · simp only [accepts, outcome?, verdict]
    cases r.accepted.isEmpty <;> rfl
  · rfl
  · rfl

lemma Advance.inserts (h : Advance q t d a x e) (id : TaskId) :
    Fleet.inserts id ⟨a, x⟩ = false := by
  cases h <;> rfl

/-! ### What all answers tell -/

/-- The claims of the work on a task: one of its own, if it was made. -/
lemma claims_of_course (h : Course (Advance q t) (begin t) l d) (id : TaskId) :
    l.filterMap (claim? id) =
      if t.id = id ∧ d.took = true then [nextAttempt t.attempts] else [] := by
  induction h with
  | refl => unfold begin; split <;> simp [took]
  | @snoc l d e a x h step ih =>
    rw [List.filterMap_append, ih]
    rcases step.claims id with ⟨hx, he⟩ | ⟨rfl, rfl, hx⟩
    · simp [hx, he]
    · by_cases hid : t.id = id <;> simp [hx, hid, took]

lemma claim_of_took (h : Course (Advance q t) (begin t) l d) (ht : d.took = true) :
    ∃ x ∈ l, (claim? t.id x).isSome = true := by
  have hm : nextAttempt t.attempts ∈ l.filterMap (claim? t.id) := by
    rw [claims_of_course h, if_pos ⟨rfl, ht⟩]
    exact List.mem_singleton_self _
  obtain ⟨x, hx, hc⟩ := List.mem_filterMap.1 hm
  exact ⟨x, hx, Option.isSome_iff_exists.2 ⟨_, hc⟩⟩

lemma took_of_claim (h : Course (Advance q t) (begin t) l d) {x : Fleet.Exchange} (hx : x ∈ l)
    (hc : (claim? id x).isSome = true) : t.id = id ∧ d.took = true := by
  obtain ⟨a, ha⟩ := Option.isSome_iff_exists.1 hc
  have hm : a ∈ l.filterMap (claim? id) := List.mem_filterMap.2 ⟨x, hx, ha⟩
  rw [claims_of_course h] at hm
  split at hm
  · next hcond => exact hcond
  · cases hm

/-- Before its last write the work on a task has resolved nothing, and never another task. -/
lemma resolves_of_course (h : Course (Advance q t) (begin t) l d) {x : Fleet.Exchange}
    (hx : x ∈ l) (hd : d.pending = true ∨ t.id ≠ id) : resolves id x = false := by
  induction h with
  | refl => cases hx
  | @snoc l d e a y h step ih =>
    rcases List.mem_append.1 hx with hx | hx
    · refine ih hx (hd.imp_left fun he => ?_)
      rcases step.writes with ⟨-, hp⟩ | ⟨-, hp, -⟩
      · exact hp he
      · exact hp
    · rw [List.mem_singleton.1 hx]
      rcases step.writes with ⟨hr, -⟩ | ⟨-, -, he, hr⟩
      · exact hr id
      · exact hr id (hd.resolve_left (by simp [he]))

lemma outcomes_of_course (h : Course (Advance q t) (begin t) l d) :
    l.filterMap outcome? = [] ∨
      (d.took = true ∧ d.unsent = false ∧ ∃ o, l.filterMap outcome? = [o]) := by
  induction h with
  | refl => exact .inl rfl
  | @snoc l d e a x h step ih =>
    rw [List.filterMap_append]
    rcases step.outcome with ⟨hx, hu, -⟩ | ⟨index, message, o, rfl, rfl, hx⟩
    · rcases ih with hl | ⟨ht, hn, o, hl⟩
      · exact .inl (by simp [hl, hx])
      · refine .inr ⟨?_, by simpa [hn] using hu, o, by simp [hl, hx]⟩
        rcases step.claims t.id with ⟨-, he⟩ | ⟨rfl, -, -⟩
        · rw [he, ht]
        · cases ht
    · rcases ih with hl | ⟨-, hn, -⟩
      · exact .inr ⟨took_after _ _, unsent_after _ _, o, by rw [hl, hx]; rfl⟩
      · cases hn

/-- The work ends well if and only if a message was accepted. -/
lemma delivered_iff (h : Course (Advance q t) (begin t) l d) :
    d.delivered = true ↔ ∃ x ∈ l, accepts x = true := by
  induction h with
  | refl => unfold begin; split <;> simp [delivered]
  | @snoc l d e a y h step ih =>
    have hsplit : (∃ x ∈ l ++ [⟨a, y⟩], accepts x = true) ↔
        (∃ x ∈ l, accepts x = true) ∨ accepts ⟨a, y⟩ = true := by
      simp [or_and_right, exists_or]
    rw [hsplit, ← ih]
    rcases step.outcome with ⟨hy, -, hd⟩ | ⟨index, message, o, rfl, rfl, hy⟩
    · simp [hd, accepts, hy]
    · rw [hy, accepts_send, delivered_after]
      simp [delivered]

lemma Advance.told_of_not_pending (h : Advance q t d a x e) (hd : d.pending = false) :
    updates ⟨a, x⟩ = false ∧ e.pending = false ∧ e.delivered = d.delivered := by
  cases h with
  | told => exact ⟨rfl, rfl, rfl⟩
  | _ => cases hd

lemma Advance.updates (h : Advance q t d a x e) (hx : Fleet.updates ⟨a, x⟩ = true) :
    e.pending = false ∧ e.delivered = false := by
  cases h with
  | @lost answer hne =>
    rcases answer with _ | _ | _
    · cases hx
    · cases hx
    · exact absurd rfl hne
  | marked | putBack => exact ⟨rfl, rfl⟩
  | _ => cases hx

lemma not_delivered_of_updates (h : Course (Advance q t) (begin t) l d) {x : Fleet.Exchange}
    (hx : x ∈ l) (hu : Fleet.updates x = true) : d.pending = false ∧ d.delivered = false := by
  induction h with
  | refl => cases hx
  | @snoc l d e a y h step ih =>
    rcases List.mem_append.1 hx with hx | hx
    · obtain ⟨hp, hd⟩ := ih hx
      obtain ⟨-, he, hde⟩ := step.told_of_not_pending hp
      exact ⟨he, hde.trans hd⟩
    · rw [List.mem_singleton.1 hx] at hu
      exact step.updates hu

/-- What is sent was compiled from the task as it was listed. -/
lemma compiled_of_sending {index : Nat} {message : Mail}
    (h : Course (Advance q t) (begin t) l (sending index message)) :
    ∃ transport, q.pool.get? index = some transport ∧
      q.compiler.compile transport (claimed t) = .ok message := by
  generalize hd : sending index message = d at h
  cases h with
  | refl => unfold begin at hd; split at hd <;> cases hd
  | snoc h step =>
    cases step with
    | picked i =>
      unfold chosen at hd
      split at hd
      · have := unsent_after (q := q) (t := t) i (.error (.noTransport i))
        rw [← hd] at this
        cases this
      · next transport ht =>
        split at hd
        · next e _ =>
          have := unsent_after (q := q) (t := t) i (.error (.compile e))
          rw [← hd] at this
          cases this
        · next m hm =>
          cases hd
          exact ⟨transport, ht, hm⟩
    | sent i m o =>
      have := unsent_after (q := q) (t := t) i (verdict i o)
      rw [← hd] at this
      cases this
    | _ => simp [gaveUp, putBack] at hd

lemma inserts_of_course (h : Course (Advance q t) (begin t) l d) {x : Fleet.Exchange}
    (hx : x ∈ l) : Fleet.inserts id x = false := by
  induction h with
  | refl => cases hx
  | @snoc l d e a y h step ih =>
    rcases List.mem_append.1 hx with hx | hx
    · exact ih hx
    · rw [List.mem_singleton.1 hx]
      exact step.inserts id

lemma eq_nil_of_claiming (h : Course (Advance q t) (begin t) l claiming) : l = [] := by
  generalize hd : claiming = d at h
  cases h with
  | refl => rfl
  | snoc h step =>
    cases step with
    | picked index =>
      have := took_chosen (q := q) (t := t) index
      rw [← hd] at this
      cases this
    | sent index message outcome =>
      have := took_after (q := q) (t := t) index (verdict index outcome)
      rw [← hd] at this
      cases this
    | _ => simp_all [gaveUp, putBack]

def givingUp : Attempt → Bool
  | marking _ | dropping _ => true
  | telling _ o | finished o => o == .failed
  | _ => false

lemma exhausted_of_after (index : Nat) (r : Except DeliveryError SendReport)
    (h : (after q t index r).givingUp = true) : q.config.maxAttempts ≤ (claimed t).attempts := by
  unfold after at h
  rcases r with e | report
  · simp only at h
    split at h
    · assumption
    · cases h
  · simp only at h
    split at h <;> cases h

/-- A task is given up after its last attempt only. -/
lemma exhausted_of_course (h : Course (Advance q t) (begin t) l d) (hd : d.givingUp = true) :
    q.config.maxAttempts ≤ (claimed t).attempts := by
  induction h with
  | refl => unfold begin at hd; split at hd <;> cases hd
  | snoc h step ih =>
    cases step with
    | picked index =>
      rcases chosen_eq (q := q) (t := t) index with ⟨message, he⟩ | ⟨e, he⟩ <;> rw [he] at hd
      · cases hd
      · exact exhausted_of_after index _ hd
    | sent index message o => exact exhausted_of_after index _ hd
    | marked | dropped => exact ih rfl
    | told => exact ih hd
    | lost | claimed | removed | timed | putBack => cases hd

/-- The task is to be put back. -/
def retrying : Attempt → Bool
  | timing .. | puttingBack .. => true
  | _ => false

lemma left_of_after (index : Nat) (r : Except DeliveryError SendReport)
    (h : (after q t index r).retrying = true) : (claimed t).attempts < q.config.maxAttempts := by
  unfold after at h
  rcases r with e | report
  · simp only at h
    split at h
    · split at h <;> cases h
    · next hlt => exact UInt32.not_le.1 hlt
  · simp only at h
    split at h <;> cases h

/-- A task is put back with an attempt left only. -/
lemma left_of_course (h : Course (Advance q t) (begin t) l d) (hd : d.retrying = true) :
    (claimed t).attempts < q.config.maxAttempts := by
  induction h with
  | refl => unfold begin at hd; split at hd <;> cases hd
  | snoc h step ih =>
    cases step with
    | picked index =>
      rcases chosen_eq (q := q) (t := t) index with ⟨message, he⟩ | ⟨e, he⟩ <;> rw [he] at hd
      · cases hd
      · exact left_of_after index _ hd
    | sent index message o => exact left_of_after index _ hd
    | timed => exact ih rfl
    | lost | claimed | removed | marked | dropped | putBack | told => cases hd

lemma took_begin : (begin t).took = false := by
  unfold begin
  split <;> rfl

lemma finished_ne_after (index : Nat) (r : Except DeliveryError SendReport) (o : TaskOutcome) :
    finished o ≠ after q t index r := by
  intro h
  rcases after_eq (q := q) (t := t) index r with ⟨e, -, ha | ha | ha⟩ | ⟨report, -, ha | ha⟩ <;>
    rw [ha] at h <;> cases h

/-- After the attempt to send, what is told at once is that the message was taken. -/
lemma telling_of_after {index : Nat} {r : Except DeliveryError SendReport} {event : Event}
    {o : TaskOutcome} (h : telling event o = after q t index r) :
    o = .sent ∧ ∃ report, event = .sent (claimed t) report := by
  rcases after_eq (q := q) (t := t) index r with ⟨e, -, ha | ha | ha⟩ | ⟨report, -, ha | ha⟩ <;>
    rw [ha] at h <;> cases h
  exact ⟨rfl, report, rfl⟩

/-- Work that has claimed its task ends by telling of it. -/
lemma told_of_course {o : TaskOutcome} (h : Course (Advance q t) (begin t) l (finished o))
    (ho : o ≠ .skipped) : ∃ l' event, Course (Advance q t) (begin t) l' (telling event o) ∧
      l = l' ++ [⟨.tell event, ()⟩] := by
  generalize hd : finished o = d at h
  cases h with
  | refl =>
    unfold begin at hd
    split at hd
    · cases hd
    · exact absurd (Attempt.finished.inj hd) ho
  | snoc h step =>
    cases step with
    | lost => exact absurd (Attempt.finished.inj hd) ho
    | told event o' =>
      obtain rfl := Attempt.finished.inj hd
      exact ⟨_, event, h, rfl⟩
    | picked index =>
      rcases chosen_eq (q := q) (t := t) index with ⟨message, he⟩ | ⟨e, he⟩ <;> rw [he] at hd
      · cases hd
      · exact (finished_ne_after _ _ _ hd).elim
    | sent => exact (finished_ne_after _ _ _ hd).elim
    | _ => cases hd

/-- The listeners are told that a task is put back after the write that does it. -/
lemma put_back_of_telling {event : Event}
    (h : Course (Advance q t) (begin t) l (telling event .rescheduled)) :
    ∃ l' retryAt transport error answer,
      Course (Advance q t) (begin t) l' (puttingBack retryAt transport error) ∧
      l = l' ++ [⟨.store (.mutate t.id (.reschedule retryAt transport)), answer⟩] ∧
      event = .failed (claimed t) error (.rescheduled retryAt transport) := by
  generalize hd : telling event .rescheduled = d at h
  cases h with
  | refl => unfold begin at hd; split at hd <;> cases hd
  | snoc h step =>
    cases step with
    | putBack retryAt transport error answer =>
      cases hd
      exact ⟨_, retryAt, transport, error, answer, h, rfl, rfl⟩
    | picked index =>
      rcases chosen_eq (q := q) (t := t) index with ⟨message, he⟩ | ⟨e, he⟩ <;> rw [he] at hd
      · cases hd
      · cases (telling_of_after hd).1
    | sent => cases (telling_of_after hd).1
    | _ => cases hd

lemma put_back_of_course (h : Course (Advance q t) (begin t) l (finished .rescheduled)) :
    ∃ l' retryAt transport error answer,
      Course (Advance q t) (begin t) l' (puttingBack retryAt transport error) ∧
      l = l' ++ [⟨.store (.mutate t.id (.reschedule retryAt transport)), answer⟩] ++
        [⟨.tell (.failed (claimed t) error (.rescheduled retryAt transport)), ()⟩] := by
  obtain ⟨l', event, h', rfl⟩ := told_of_course h (by simp)
  obtain ⟨l'', retryAt, transport, error, answer, h'', rfl, rfl⟩ := put_back_of_telling h'
  exact ⟨l'', retryAt, transport, error, answer, h'', rfl⟩

lemma puttingBack_ne_after (index : Nat) (r : Except DeliveryError SendReport) (retryAt : Instant)
    (transport : Nat) (error : DeliveryError) :
    puttingBack retryAt transport error ≠ after q t index r := by
  intro h
  rcases after_eq (q := q) (t := t) index r with ⟨e, -, ha | ha | ha⟩ | ⟨report, -, ha | ha⟩ <;>
    rw [ha] at h <;> cases h

lemma timing_of_course {retryAt : Instant} {transport : Nat} {error : DeliveryError}
    (h : Course (Advance q t) (begin t) l (puttingBack retryAt transport error)) :
    ∃ l' index now, Course (Advance q t) (begin t) l' (timing index error) ∧
      l = l' ++ [⟨.now, now⟩] ∧ retryAt = q.retry.retryAt now (claimed t).attempts ∧
      transport = q.pool.afterFailure index (claimed t).attempts := by
  generalize hd : puttingBack retryAt transport error = d at h
  cases h with
  | refl => unfold begin at hd; split at hd <;> cases hd
  | snoc h step =>
    cases step with
    | timed index e now =>
      cases hd
      exact ⟨_, index, now, h, rfl, rfl, rfl⟩
    | picked index =>
      rcases chosen_eq (q := q) (t := t) index with ⟨message, he⟩ | ⟨e, he⟩ <;> rw [he] at hd
      · cases hd
      · exact (puttingBack_ne_after _ _ _ _ _ hd).elim
    | sent => exact (puttingBack_ne_after _ _ _ _ _ hd).elim
    | _ => cases hd

lemma timed_of_course {retryAt : Instant} {transport : Nat} {error : DeliveryError}
    (h : Course (Advance q t) (begin t) l (puttingBack retryAt transport error)) :
    ∃ now, ⟨.now, now⟩ ∈ l ∧ retryAt = q.retry.retryAt now (claimed t).attempts := by
  obtain ⟨l', -, now, -, rfl, hr, -⟩ := timing_of_course h
  exact ⟨now, by simp, hr⟩

def unconditional : Ask → Bool
  | .store (.mutate _ p) => p.guard.isNone
  | _ => false

lemma Advance.holds_of_unconditional (h : Advance q t d a x e) (ha : unconditional a = true) :
    d.took = true ∧ d.pending = true := by
  cases h with
  | marked | putBack => exact ⟨rfl, rfl⟩
  | _ => cases ha

end MailQueue.Attempt

import MailQueue.Proofs.Repeats

/-!
# What is taken in and what is not

A request that is taken in alone, whatever the store holds and the settings are. Either nothing is
written and there is one of five causes, or the identifier that is answered belongs to an open task
that carries the mail.

* `Queue.scheduled` is when the task of a request is sent, `Queue.joined?` the task that it joins;
* `Refusal` are the causes, each with the exact condition under which it is the one;
* `takeIn_of_refusal` and `takeIn_accepted` are the two ways that a request can end;
* `admitted_or_refused` puts them together.
-/

namespace MailQueue

open Queue

/-- A mail for somebody, with a body. -/
def Request.Complete (r : Request) : Prop := r.mail.hasBody = true ∧ r.mail.recipient.valid = true

namespace Queue

/-- The time for which mails wait for others. -/
def patience (q : Queue) : Nat := q.config.concat.delayMs.toNat * nsPerMs

/-- When the task of a request is sent that it opens. -/
def scheduled (q : Queue) (now : Instant) (r : Request) : Except EnqueueError Instant :=
  if q.config.concat.enabled then q.windowEnd (r.sendAt.getD now) else .ok (r.sendAt.getD now)

/-- The open task that a request joins. -/
def joined? (q : Queue) (r : Request) (w : Instant) (m : Memory) : Option Task :=
  if q.config.concat.enabled then m.findPending r.mail.recipient.groupingKey w else none

end Queue

/-- Why a request is not taken in. -/
inductive Refusal (q : Queue) (now : Instant) (id : TaskId) (r : Request) (m : Memory) :
    EnqueueError → Prop where
  | missingBody (h : r.mail.hasBody = false) : Refusal q now id r m (.refused .missingBody)
  | invalidRecipient (hb : r.mail.hasBody = true) (h : r.mail.recipient.valid = false) :
      Refusal q now id r m (.refused .invalidRecipient)
  /-- Mails wait longer than can be written down. -/
  | concatDelay (hr : r.Complete) (hc : q.config.concat.enabled = true)
      (h : maxSpan < q.patience) : Refusal q now id r m (.refused (.config .concatDelay))
  /-- The wait ends beyond the last instant of the calendar. -/
  | outsideCalendar (hr : r.Complete) (hc : q.config.concat.enabled = true)
      (hd : q.patience ≤ maxSpan)
      (h : Instant.last.ns < (r.sendAt.getD now).ns + (q.patience : Nat)) :
      Refusal q now id r m .outsideCalendar
  /-- A task of its own is needed, and its identifier is in use. -/
  | duplicate {w : Instant} (hr : r.Complete) (hw : q.scheduled now r = .ok w)
      (hn : q.joined? r w m = none) (h : (m.get? id).isSome) :
      Refusal q now id r m (.refused (.storage (.duplicate id)))

/-- The task under this identifier is open and carries the mail. -/
def Memory.Carries (m : Memory) (mail : Mail) (i : TaskId) : Prop :=
  ∃ t, m.get? i = some t ∧ t.isOpen = true ∧ (mail ∈ t.fragments ∨ t.carries mail = true)

section

variable {q : Queue} {m : Memory} {now : Instant} {id : TaskId} {r : Request} {w : Instant}
  {b : Binding} {e : EnqueueError}

lemma windowEnd_eq (q : Queue) (sendAt : Instant) :
    q.windowEnd sendAt =
      if maxSpan < q.patience then .error (.refused (.config .concatDelay))
      else match sendAt.add? (q.patience : Nat) with
        | some t => .ok t
        | none => .error .outsideCalendar := rfl

/-- Without an end of its window a request is refused for one of two causes. -/
lemma refusal_of_scheduled (hr : r.Complete) (hs : q.scheduled now r = .error e) :
    Refusal q now id r m e := by
  unfold scheduled at hs
  split at hs
  · next hc =>
    rw [windowEnd_eq] at hs
    split at hs
    · next hd =>
      obtain rfl := Except.error.inj hs
      exact .concatDelay hr hc hd
    · next hd =>
      rcases ht : (r.sendAt.getD now).add? (q.patience : Nat) with _ | t
      · rw [ht] at hs
        obtain rfl := Except.error.inj hs
        have hlast := (Instant.add?_eq_none_iff (Int.natCast_nonneg _)).1 ht
        exact .outsideCalendar hr hc (Nat.not_lt.1 hd) hlast
      · rw [ht] at hs
        cases hs
  · cases hs

/-- A request that is complete is refused for its time, or goes on to the store. -/
lemma takeIn_of_complete (hr : r.Complete) :
    q.takeIn now id r m =
      match q.scheduled now r with
      | .error e => (.error e, m)
      | .ok w => (if q.config.concat.enabled then
          (concatenate r.mail w maxAppendRounds).bind fun o => Intake.conclude r w o
        else openTask r w).run (Intake.reply now id) m := by
  rcases takeIn_eq q now id r m with ⟨-, he⟩ | ⟨hno, -⟩
  · rw [he, Intake.carryOut, scheduled]
    split
    · rcases q.windowEnd (r.sendAt.getD now) with e | w <;> rfl
    · rfl
  · simp [hr.1, hr.2] at hno

/-- What becomes of a request that goes on to the store. -/
lemma takeIn_of_scheduled (hb : m.binding = some b) (hd : m.Distinct) (hr : r.Complete)
    (hw : q.scheduled now r = .ok w) :
    q.takeIn now id r m =
      match q.joined? r w m with
      | some t => (.ok t.id, if t.carries r.mail then m else m.put (t.joinedBy r.mail))
      | none => (openTask r w).run (Intake.reply now id) m := by
  rw [takeIn_of_complete hr, hw, joined?]
  dsimp only
  split
  · rw [Program.run_bind, show maxAppendRounds = 7 + 1 from rfl, run_concatenate hb hd]
    rcases m.findPending r.mail.recipient.groupingKey w with _ | t <;> rfl
  · rfl

lemma run_openTask_of_taken (hb : m.binding = some b) (hid : (m.get? id).isSome) :
    (openTask r w).run (Intake.reply now id) m =
      (.error (.refused (.storage (.duplicate id))), m) := by
  have hins : m.answer (.insert (Intake.fresh r id w)) = (.error (.duplicate id), m) := by
    have hsome : (m.get? (Intake.fresh r id w).id).isSome := hid
    simp only [Memory.answer, Memory.whenBound, hb, if_pos hsome]
    rfl
  show (call (.insert (Intake.fresh r id w)) >>= _).run (Intake.reply now id) m = _
  rw [run_call, hins]
  rfl

/-- **A request with a cause against it** is refused for that cause, and nothing is written. -/
lemma takeIn_of_refusal (hb : m.binding = some b) (hd : m.Distinct)
    (h : Refusal q now id r m e) : q.takeIn now id r m = (.error e, m) := by
  cases h with
  | missingBody h =>
    rw [takeIn, ← Intake.work_begin, Intake.begin, h]
    rfl
  | invalidRecipient hb h =>
    rw [takeIn, ← Intake.work_begin, Intake.begin, hb, h]
    rfl
  | concatDelay hr hc h =>
    rw [takeIn_of_complete hr, scheduled, if_pos hc, windowEnd_eq, if_pos h]
  | outsideCalendar hr hc hle h =>
    rw [takeIn_of_complete hr, scheduled, if_pos hc, windowEnd_eq, if_neg (Nat.not_lt.2 hle),
      (Instant.add?_eq_none_iff (Int.natCast_nonneg _)).2 h]
  | duplicate hr hw hn h =>
    rw [takeIn_of_scheduled hb hd hr hw, hn]
    exact run_openTask_of_taken hb h

/-- **A request with no cause against it** ends with an open task that carries its mail. -/
lemma takeIn_accepted (hb : m.binding = some b) (hd : m.Distinct)
    (h : ∀ e, ¬Refusal q now id r m e) :
    ∃ i m', q.takeIn now id r m = (.ok i, m') ∧ m'.Carries r.mail i := by
  have hr : r.Complete := by
    have hbody : r.mail.hasBody = true :=
      Bool.eq_true_of_not_eq_false fun hno => h _ (.missingBody hno)
    exact ⟨hbody, Bool.eq_true_of_not_eq_false fun hno => h _ (.invalidRecipient hbody hno)⟩
  rcases hw : q.scheduled now r with e | w
  · exact absurd (refusal_of_scheduled hr hw) (h e)
  · rw [takeIn_of_scheduled hb hd hr hw]
    rcases hn : q.joined? r w m with _ | t
    · have hid : m.get? id = none :=
        Option.not_isSome_iff_eq_none.1 fun hid => h _ (.duplicate hr hw hn hid)
      exact ⟨id, m.add (Intake.fresh r id w), run_openTask hb hid, Intake.fresh r id w,
        (Memory.get?_add ..).trans (if_pos rfl), rfl, .inl (List.mem_singleton_self _)⟩
    · have hf : m.findPending r.mail.recipient.groupingKey w = some t := by
        rw [joined?] at hn
        split at hn
        · exact hn
        · cases hn
      obtain ⟨ht, ho, -, -⟩ := Memory.mem_of_findPending hf
      have hget := Memory.get?_of_mem hd ht
      refine ⟨t.id, _, rfl, ?_⟩
      cases hc : t.carries r.mail with
      | true => exact ⟨t, hget, ho, .inr hc⟩
      | false =>
        have hput := Memory.get?_put_of_id hget (show (t.joinedBy r.mail).id = t.id from rfl) t.id
        exact ⟨t.joinedBy r.mail, hput.trans (if_pos rfl), ho,
          .inl (List.mem_append_right _ (List.mem_singleton_self _))⟩

/-- **What is taken in and what is not.** A request ends with a cause exactly if it stands against
it, and the store is then as before; otherwise it ends with an open task that carries its mail. -/
theorem admitted_or_refused (hb : m.binding = some b) (hd : m.Distinct) (q : Queue)
    (now : Instant) (id : TaskId) (r : Request) :
    (∀ e, (q.takeIn now id r m).1 = .error e ↔ Refusal q now id r m e) ∧
      (∀ e, (q.takeIn now id r m).1 = .error e → (q.takeIn now id r m).2 = m) ∧
      ∀ i, (q.takeIn now id r m).1 = .ok i → (q.takeIn now id r m).2.Carries r.mail i := by
  by_cases h : ∃ e, Refusal q now id r m e
  · obtain ⟨e, he⟩ := h
    rw [takeIn_of_refusal hb hd he]
    refine ⟨fun e' => ⟨fun h' => ?_, fun h' => ?_⟩, fun _ _ => rfl, fun i hi => ?_⟩
    · rwa [← Except.error.inj h']
    · exact congrArg Prod.fst ((takeIn_of_refusal hb hd he).symm.trans (takeIn_of_refusal hb hd h'))
    · cases hi
  · obtain ⟨i, m', hi, hm'⟩ := takeIn_accepted hb hd (not_exists.1 h)
    rw [hi]
    refine ⟨fun e => ⟨fun h' => ?_, fun h' => absurd ⟨e, h'⟩ h⟩, fun e h' => ?_, fun j hj => ?_⟩
    · cases h'
    · cases h'
    · obtain rfl := Except.ok.inj hj
      exact hm'

end

/-! ### A wait beyond the calendar -/

namespace Refusal

/-- A queue that merges mails for as long as can be written down. -/
def waiter : Queue :=
  wire { concat := { enabled := true, delayMs := 9223372036854775807 } } [⟨"smtp", none⟩] none

/-- No mail can wait for so long. -/
lemma refusal_waiter : Refusal waiter .epoch (.ofNat 1) (Fleet.note "a@x" "one") (vacant waiter)
    .outsideCalendar :=
  .outsideCalendar ⟨rfl, rfl⟩ rfl (by decide) (by decide)

end Refusal

open Refusal in
/-- The wait is not refused as too long, since it can be written down, and the sum is beyond the
calendar: the call does not return. -/
theorem admitted_or_refused_waiter :
    (vacant waiter).binding = some (Queue.binding waiter.config) ∧ (vacant waiter).Distinct ∧
      Refusal waiter .epoch (.ofNat 1) (Fleet.note "a@x" "one") (vacant waiter)
        .outsideCalendar ∧
      waiter.takeIn .epoch (.ofNat 1) (Fleet.note "a@x" "one") (vacant waiter) =
        (.error .outsideCalendar, vacant waiter) := by
  have hd : (vacant waiter).Distinct := (orderly_vacant waiter).distinct
  obtain ⟨hrefused, hsame, -⟩ :=
    admitted_or_refused rfl hd waiter .epoch (.ofNat 1) (Fleet.note "a@x" "one")
  have herror := (hrefused .outsideCalendar).2 refusal_waiter
  exact ⟨rfl, hd, refusal_waiter, Prod.ext herror (hsame _ herror)⟩

end MailQueue

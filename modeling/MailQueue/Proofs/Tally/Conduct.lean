import MailQueue.Proofs.Crew
import MailQueue.Proofs.Fleet.Attempt

/-!
# What becomes of one entry of a tick

All that is asked on behalf of an entry, from the first question to the last, whatever the answers
are: a claim that fails is the last question, and after a claim that succeeds there is at most one
message, at most one write, and one event.

* `Handing`, `Closing`, `Conduct` and `Handled` say what may have been asked when the handing over,
  the work after it, the work on a task and that on an entry have ended;
* `conduct_of_path` and `handled_of_path` show it of each way through the work;
* `Counted` sets what was asked against what it is counted as; `Handled.counted` shows that the two
  agree for an entry, and `counted_flatten` adds entries up.
-/

namespace MailQueue

/-- What an event says of the work that it ends. -/
def Event.outcome : Event → TaskOutcome
  | .sent _ _ => .sent
  | .failed _ _ (.rescheduled _ _) => .rescheduled
  | .failed _ _ .gaveUp => .failed

namespace Tally

open Queue Program

/-! ### The ways through the work -/

/-- How a task that has been claimed is handed over: what is asked of the transport of an index, and
what comes of it. -/
inductive Handing (q : Queue) (t : Task) (index : Nat) :
    List Fleet.Exchange → Except DeliveryError SendReport → Prop where
  | noTransport (h : q.pool.get? index = none) : Handing q t index [] (.error (.noTransport index))
  | uncompiled {transport : Transport} {cause : ReadError} (h : q.pool.get? index = some transport)
      (hc : q.compiler.compile transport t = .error cause) :
      Handing q t index [] (.error (.compile cause))
  | sent {transport : Transport} {message : Mail} (h : q.pool.get? index = some transport)
      (hc : q.compiler.compile transport t = .ok message) (outcome : SendOutcome) :
      Handing q t index [⟨.send index message, outcome⟩] (Attempt.verdict index outcome)

/-- How the work on a claimed task is ended after its message was handed over or could not be: by
one write at most, whatever its answer, and with this event. -/
inductive Closing (q : Queue) (t : Task) (index : Nat) :
    Except DeliveryError SendReport → List Fleet.Exchange → Event → Prop where
  | kept {report : SendReport} (hk : q.config.keepHistory = true) :
      Closing q t index (.ok report) [] (.sent t report)
  | removed {report : SendReport} (hk : q.config.keepHistory = false)
      (answer : Except StoreError Bool) :
      Closing q t index (.ok report) [⟨.store (.delete t.id), answer⟩] (.sent t report)
  | marked {e : DeliveryError} (hm : q.config.maxAttempts ≤ t.attempts)
      (hk : q.config.keepHistory = true) (answer : Except StoreError Bool) :
      Closing q t index (.error e) [⟨.store (.mutate t.id .fail), answer⟩] (.failed t e .gaveUp)
  | dropped {e : DeliveryError} (hm : q.config.maxAttempts ≤ t.attempts)
      (hk : q.config.keepHistory = false) (answer : Except StoreError Bool) :
      Closing q t index (.error e) [⟨.store (.delete t.id), answer⟩] (.failed t e .gaveUp)
  | putBack {e : DeliveryError} (hm : ¬ q.config.maxAttempts ≤ t.attempts) (now : Instant)
      (answer : Except StoreError Bool) :
      Closing q t index (.error e)
        [⟨.now, now⟩, ⟨.store (.mutate t.id (.reschedule (q.retry.retryAt now t.attempts)
          (q.pool.afterFailure index t.attempts))), answer⟩]
        (.failed t e (.rescheduled (q.retry.retryAt now t.attempts)
          (q.pool.afterFailure index t.attempts)))

/-- The claim of a task as it was listed, with its answer. -/
def claiming (t : Task) (answer : Except StoreError Bool) : Fleet.Exchange :=
  ⟨.store (.mutate t.id (.claim t.attempts (nextAttempt t.attempts))), answer⟩

/-- All that is asked on behalf of a task, and what the tick counts it as. -/
inductive Conduct (q : Queue) (t : Task) : List Fleet.Exchange → TaskOutcome → Prop where
  /-- A task that is not open is left alone. -/
  | stale (h : t.isOpen = false) : Conduct q t [] .skipped
  /-- A claim that is lost or fails is the end. -/
  | lost (h : t.isOpen = true) {answer : Except StoreError Bool} (ha : answer ≠ .ok true) :
      Conduct q t [claiming t answer] .skipped
  /-- A task that has been claimed is handed over, then one write resolves it, then one event tells
  of it. -/
  | carried (h : t.isOpen = true) {index : Nat} {sends writes : List Fleet.Exchange}
      {r : Except DeliveryError SendReport} {event : Event}
      (handing : Handing q (claimed t) index sends r)
      (closing : Closing q (claimed t) index r writes event) :
      Conduct q t (claiming t (.ok true) :: ⟨.pick t.transport, index⟩ ::
        (sends ++ (writes ++ [⟨.tell event, ()⟩]))) event.outcome

/-- All that is asked on behalf of an entry, and what the tick counts it as; a mark whose task is
not due any more is none of the due tasks and is not counted. -/
inductive Handled (q : Queue) (now : Instant) :
    Store.Due → List Fleet.Exchange → Option TaskOutcome → Prop where
  | task {t : Task} {l : List Fleet.Exchange} {o : TaskOutcome} (h : Conduct q t l o) :
      Handled q now (.task t) l (some o)
  | unreadable (e : StoreError) : Handled q now (.unreadable e) [] (some .skipped)
  | found {key : String} {t : Task} {l : List Fleet.Exchange} {o : TaskOutcome}
      (h : Conduct q t l o) :
      Handled q now (.mark key)
        (⟨.store (.look key now), (Except.ok (some t) : Except StoreError _)⟩ :: l) (some o)
  | unanswered {key : String} (e : StoreError) :
      Handled q now (.mark key)
        [⟨.store (.look key now), (Except.error e : Except StoreError (Option Task))⟩]
        (some .skipped)
  | vanished {key : String} :
      Handled q now (.mark key)
        [⟨.store (.look key now), (Except.ok none : Except StoreError (Option Task))⟩] none

/-! ### Each way is one of these -/

variable {q : Queue} {t : Task} {index : Nat} {now : Instant} {l : List Fleet.Exchange}

lemma handing_of_path {r : Except DeliveryError SendReport}
    (h : Path (q.deliver index t) l (.done r)) : Handing q t index l r := by
  unfold deliver at h
  split at h
  · next hg =>
    obtain ⟨rfl, hr⟩ := h.of_done
    cases hr
    exact .noTransport hg
  · next transport hg =>
    split at h
    · next hc =>
      obtain ⟨rfl, hr⟩ := h.of_done
      cases hr
      exact .uncompiled hg hc
    · next message hc =>
      obtain ⟨outcome, l', rfl, hnext⟩ := h.exists_of_ask
      have hdone : Path (.done (Attempt.verdict index outcome)) l' (.done r) := by
        cases outcome <;> exact hnext
      obtain ⟨rfl, hr⟩ := hdone.of_done
      cases hr
      exact .sent hg hc outcome

lemma of_path_tell {event : Event} {o o' : TaskOutcome}
    (h : Path (tell event >>= fun _ => pure o) l (.done o')) : l = [⟨.tell event, ()⟩] ∧ o' = o := by
  obtain ⟨_, l', rfl, hnext⟩ := h.exists_of_ask
  obtain ⟨rfl, ho⟩ := hnext.of_done
  exact ⟨rfl, Program.done.inj ho⟩

lemma closing_of_settle {report : SendReport} {o : TaskOutcome}
    (h : Path (q.settle t report) l (.done o)) : ∃ writes event,
      Closing q t index (.ok report) writes event ∧ l = writes ++ [⟨.tell event, ()⟩] ∧
        o = event.outcome := by
  unfold settle at h
  cases hk : q.config.keepHistory <;> simp only [hk] at h
  · obtain ⟨answer, l', rfl, hnext⟩ := h.exists_of_ask
    obtain ⟨rfl, rfl⟩ := of_path_tell hnext
    exact ⟨_, _, .removed hk answer, rfl, rfl⟩
  · obtain ⟨rfl, rfl⟩ := of_path_tell h
    exact ⟨_, _, .kept hk, rfl, rfl⟩

lemma closing_of_failure {e : DeliveryError} {o : TaskOutcome}
    (h : Path (q.handleFailure t index e) l (.done o)) : ∃ writes event,
      Closing q t index (.error e) writes event ∧ l = writes ++ [⟨.tell event, ()⟩] ∧
        o = event.outcome := by
  unfold handleFailure at h
  split at h
  · next hm =>
    cases hk : q.config.keepHistory <;> simp only [hk] at h
    · obtain ⟨answer, l', rfl, hnext⟩ := h.exists_of_ask
      obtain ⟨rfl, rfl⟩ := of_path_tell hnext
      exact ⟨_, _, .dropped hm hk answer, rfl, rfl⟩
    · obtain ⟨answer, l', rfl, hnext⟩ := h.exists_of_ask
      obtain ⟨rfl, rfl⟩ := of_path_tell hnext
      exact ⟨_, _, .marked hm hk answer, rfl, rfl⟩
  · next hm =>
    obtain ⟨now, l', rfl, htimed⟩ := h.exists_of_ask
    obtain ⟨answer, l'', rfl, hnext⟩ := htimed.exists_of_ask
    obtain ⟨rfl, rfl⟩ := of_path_tell hnext
    exact ⟨_, _, .putBack hm now answer, rfl, rfl⟩

/-- **What is asked on behalf of a task**, whatever the answers. -/
theorem conduct_of_path {o : TaskOutcome} (h : Path (q.process t) l (.done o)) :
    Conduct q t l o := by
  unfold process at h
  cases hopen : t.isOpen <;> simp only [hopen] at h
  · obtain ⟨rfl, ho⟩ := h.of_done
    cases ho
    exact .stale hopen
  · obtain ⟨answer, l', rfl, hnext⟩ := h.exists_of_ask
    by_cases ha : answer = .ok true
    · subst ha
      obtain ⟨index, l', rfl, hpicked⟩ := hnext.exists_of_ask
      obtain ⟨sends, r, l', rfl, hsend, hend⟩ :=
        Path.exists_of_bind (p := q.deliver index (claimed t)) hpicked
      have hclose : ∃ writes event, Closing q (claimed t) index r writes event ∧
          l' = writes ++ [⟨.tell event, ()⟩] ∧ o = event.outcome := by
        cases r with
        | ok report => exact closing_of_settle hend
        | error e => exact closing_of_failure hend
      obtain ⟨writes, event, hclose, rfl, rfl⟩ := hclose
      exact .carried hopen (handing_of_path hsend) hclose
    · have hdone : Path (.done .skipped) l' (.done o) := by
        rcases answer with e | _ | _
        · exact hnext
        · exact hnext
        · exact absurd rfl ha
      obtain ⟨rfl, ho⟩ := hdone.of_done
      cases ho
      exact .lost hopen ha

/-- **What is asked on behalf of an entry**, whatever the answers. -/
theorem handled_of_path {due : Store.Due} {r : Option TaskOutcome}
    (h : Path (Crew.handle (q.scout now) due) l (.done r)) : Handled q now due l r := by
  have task : ∀ {t l r}, Path (Crew.carry (some (q.process t))) l (.done r) →
      ∃ o, r = some o ∧ Conduct q t l o := by
    intro t l r h
    obtain ⟨p, hp, hr⟩ := h.of_bind_done
    cases p with
    | done o =>
      cases hr
      exact ⟨o, rfl, conduct_of_path hp⟩
    | ask => cases hr
  cases due with
  | task t =>
    obtain ⟨o, rfl, hc⟩ := task h
    exact .task hc
  | unreadable e =>
    obtain ⟨rfl, hr⟩ := Path.of_done h
    cases hr
    exact .unreadable e
  | mark key =>
    obtain ⟨answer, l', rfl, hnext⟩ := Path.exists_of_ask h
    rcases answer with e | _ | t
    · obtain ⟨rfl, hr⟩ := Path.of_done hnext
      cases hr
      exact .unanswered e
    · obtain ⟨rfl, hr⟩ := Path.of_done hnext
      cases hr
      exact .vanished
    · obtain ⟨o, rfl, hc⟩ := task hnext
      exact .found hc

/-! ### What is counted -/

def claims : Fleet.Exchange → Bool
  | ⟨.store (.mutate _ p), .ok true⟩ =>
    match p.guard with
    | some (.unclaimed _) => true
    | _ => false
  | _ => false

def tells (o : TaskOutcome) : Fleet.Exchange → Bool
  | ⟨.tell event, _⟩ => event.outcome == o
  | _ => false

/-- A listed task turned out not to be due any more. -/
def vanishes : Fleet.Exchange → Bool
  | ⟨.store (.look _ _), .ok none⟩ => true
  | _ => false

lemma outcome_ne_skipped (event : Event) : event.outcome ≠ .skipped := by
  rcases event with _ | ⟨_, _, _ | _⟩ <;> nofun

/-- What is asked on behalf of so many entries agrees with what they are counted as. -/
structure Counted (entries : Nat) (l : List Fleet.Exchange) (os : List TaskOutcome) : Prop where
  claims : l.countP claims = os.countP (· != .skipped)
  tells : ∀ o, o ≠ .skipped → l.countP (tells o) = os.count o
  vanishes : os.length + l.countP vanishes = entries

lemma Counted.append {m n : Nat} {l l' : List Fleet.Exchange} {os os' : List TaskOutcome}
    (h : Counted m l os) (h' : Counted n l' os') : Counted (m + n) (l ++ l') (os ++ os') where
  claims := by rw [List.countP_append, List.countP_append, h.claims, h'.claims]
  tells o ho := by rw [List.countP_append, List.count_append, h.tells o ho, h'.tells o ho]
  vanishes := by
    have := h.vanishes
    have := h'.vanishes
    rw [List.countP_append, List.length_append]
    omega

lemma Counted.perm {n : Nat} {l l' : List Fleet.Exchange} {os os' : List TaskOutcome}
    (h : Counted n l os) (hl : l.Perm l') (ho : os.Perm os') : Counted n l' os' where
  claims := by rw [← hl.countP_eq, ← ho.countP_eq, h.claims]
  tells o hne := by rw [← hl.countP_eq, ← ho.count_eq, h.tells o hne]
  vanishes := by rw [← hl.countP_eq, ← ho.length_eq, h.vanishes]

/-- Neither a claim nor an event, and no task that has vanished. -/
def Uncounted (x : Fleet.Exchange) : Prop :=
  claims x = false ∧ vanishes x = false ∧ ∀ o, tells o x = false

lemma Counted.after {n : Nat} {u : List Fleet.Exchange} {os : List TaskOutcome}
    (h : Counted n l os) (hu : ∀ x ∈ u, Uncounted x) : Counted n (u ++ l) os := by
  have hnone : Counted 0 u [] := by
    refine ⟨?_, fun o _ => ?_, ?_⟩
    · exact List.countP_eq_zero.2 fun x hx => by simp [(hu x hx).1]
    · exact List.countP_eq_zero.2 fun x hx => by simp [(hu x hx).2.2 o]
    · rw [List.length_nil, Nat.zero_add]
      exact List.countP_eq_zero.2 fun x hx => by simp [(hu x hx).2.1]
  have happ := hnone.append h
  rwa [Nat.zero_add] at happ

lemma Handing.uncounted {r : Except DeliveryError SendReport} (h : Handing q t index l r) :
    ∀ x ∈ l, Uncounted x := by
  cases h with
  | noTransport | uncompiled => simp
  | sent => simp [Uncounted, claims, vanishes, tells]

lemma Closing.uncounted {r : Except DeliveryError SendReport} {event : Event}
    (h : Closing q t index r l event) : ∀ x ∈ l, Uncounted x := by
  cases h with
  | kept => simp
  | removed | dropped => simp [Uncounted, claims, vanishes, tells]
  | marked _ _ answer | putBack _ _ answer =>
    rcases answer with _ | _ | _ <;>
      simp [Uncounted, claims, vanishes, tells, Patch.fail, Patch.reschedule]

lemma counted_pair (t : Task) (index : Nat) (event : Event) :
    Counted 1 [claiming t (.ok true), ⟨.pick t.transport, index⟩, ⟨.tell event, ()⟩]
      [event.outcome] where
  claims := by
    rw [List.countP_singleton, if_pos (by simp [outcome_ne_skipped])]
    rfl
  tells o _ := by simp [tells, claiming, List.count_singleton]
  vanishes := by simp [vanishes, claiming]

lemma counted_skipped : Counted 1 [] [.skipped] := ⟨rfl, fun o ho => by simp [ho.symm], rfl⟩

lemma Conduct.counted {o : TaskOutcome} (h : Conduct q t l o) : Counted 1 l [o] := by
  cases h with
  | stale => exact counted_skipped
  | @lost _ answer ha =>
    refine counted_skipped.after (u := [claiming t answer]) fun x hx => ?_
    rw [List.mem_singleton.1 hx]
    rcases answer with _ | _ | _
    · simp [Uncounted, claims, vanishes, tells, claiming]
    · simp [Uncounted, claims, vanishes, tells, claiming]
    · exact absurd rfl ha
  | @carried _ index sends writes r event handing closing =>
    refine ((counted_pair t index event).after (u := sends ++ writes) fun x hx => ?_).perm ?_
      (.refl _)
    · exact (List.mem_append.1 hx).elim (handing.uncounted x) (closing.uncounted x)
    · -- the counted three stand around what is not counted
      refine List.perm_append_comm.trans (.cons _ (.cons _ ?_))
      rw [← List.append_assoc]
      exact List.perm_append_comm

lemma Handled.counted {due : Store.Due} {r : Option TaskOutcome} (h : Handled q now due l r) :
    Counted 1 l r.toList := by
  cases h with
  | task h => exact h.counted
  | unreadable => exact counted_skipped
  | @found key t _ _ h =>
    refine h.counted.after (u := [⟨.store (.look key now), _⟩]) fun x hx => ?_
    rw [List.mem_singleton.1 hx]
    simp [Uncounted, claims, vanishes, tells]
  | unanswered => exact ⟨rfl, fun o ho => by simp [ho.symm, tells], rfl⟩
  | vanished => exact ⟨rfl, fun o ho => by simp [tells], rfl⟩

lemma counted_flatten {ls : List (List Fleet.Exchange)} {rs : List (List TaskOutcome)}
    (h : List.Forall₂ (Counted 1) ls rs) : Counted ls.length ls.flatten rs.flatten := by
  induction h with
  | nil => exact ⟨rfl, fun _ _ => rfl, rfl⟩
  | cons h _ ih =>
    rw [List.length_cons, Nat.add_comm]
    exact h.append ih

end Tally

end MailQueue

import MailQueue.Proofs.Fleet.Growth
import MailQueue.Proofs.Fleet.Tenure

/-!
# How a request comes by its task

A request joins an open task, opens its own, or finds its mail in an open task already. Which of
these it was shows in the last answer to its job, and nothing else is added by it.

* `Placed` are the three ways;
* `placed`: a request that has ended with an identifier went one of them, and its task was to be
  sent no later than the window allows.
-/

namespace MailQueue.Fleet

open Queue Interleaving

variable {f : Fleet} {x₀ : Shared} {s : State} {id : TaskId} {r : Request} {n i : Nat}

/-- How a request came by its task. `l` are all answers to its job, `e` is the record of the last,
and `w` the latest time at which the task may be sent. -/
inductive Placed (f : Fleet) (r : Request) (id : TaskId) (w : Instant) (l : List Exchange)
    (e : Entry) : Prop where
  /-- Its mail was added to an open task. -/
  | joined {u : Task} (hc : f.config.concat.enabled = true)
      (hu : e.before.store.get? id = some u) (ho : u.isOpen = true) (hw : u.sendAt ≤ w)
      (hx : appended? id e.exchange = some r.mail) (hl : l.filter adds = [e.exchange])
  /-- It has opened the task. -/
  | opened (hn : e.before.store.get? id = none)
      (hx : e.exchange = ⟨.store (.insert (Intake.fresh r id w)),
        (Except.ok () : Except StoreError Unit)⟩) (hl : l.filter adds = [e.exchange])
  /-- It has found a mail to the same effect in an open task, and added nothing. -/
  | found {u : Task} {m : Mail} (hc : f.config.concat.enabled = true)
      (hu : e.before.store.get? id = some u) (ho : u.isOpen = true) (hw : u.sendAt ≤ w)
      (hx : e.exchange = ⟨.store (.find r.mail.recipient w),
        (Except.ok (some u) : Except StoreError (Option Task))⟩)
      (hm : m ∈ u.fragments) (he : m.equivalent r.mail = true) (hl : l.filter adds = [])

lemma sendAt_of_joining (hx : Stock f x₀) (hd : x₀.store.Distinct)
    (h : Run f.rules { shared := x₀ } s) {t u : Task} {w : Instant} {rounds : Nat}
    (hc : Course (Intake.Advance (f.queue i) r) (Intake.begin (f.queue i) r) (s.past n)
      (.joining t w rounds)) (hid : t.id = id) (hu : stored s id = some u)
    (ha : u.attempts = t.attempts) : u.sendAt ≤ w := by
  obtain ⟨e, he, -, hex⟩ := mem_pastIn.1 (Intake.found_of_joining hc).1
  obtain ⟨hf, ho, hw⟩ := found_of_mem_log h hx.bound hd he hex
  rw [hid] at hf
  rw [sendAt_since hx h he hf ho hu ha]
  exact hw

/-- **Each request that ends with an identifier** has joined that task, opened it, or found its
mail there, and has added nothing else. -/
theorem placed (hx : Stock f x₀) (hd : x₀.store.Distinct) (h : Run f.rules { shared := x₀ } s)
    (hn : s.threads[n]? = some ⟨⟨i, .enqueue r⟩, .done (.ok id)⟩) :
    ∃ t w pre e post, Intake.sendTime? r (s.past n) = some t ∧
      Intake.OpensAt (f.queue i) t w ∧ s.log = pre ++ e :: post ∧ e.thread = n ∧
      (∀ e' ∈ post, e'.thread ≠ n) ∧ Placed f r id w (s.past n) e := by
  obtain ⟨d, hcourse, hwork⟩ := intake_of h hn
  obtain rfl : d = .finished (.ok id) := by
    cases d with
    | finished o =>
      cases hwork
      rfl
    | _ => cases hwork
  obtain ⟨l, d, x, hl, hbefore, hend⟩ := Intake.ending_of_course hcourse
  obtain ⟨pre, e, post, hlog, rfl, hex, hpre, hpost⟩ := exists_last hl
  obtain ⟨t, next, y, ht, rfl, hs, asks, ha, ch, -⟩ := change_of_split h hx.bound hlog id
  have hdated := Intake.dated_of_course hbefore
  have hadds : ∀ b, adds x = b → (s.past e.thread).filter adds = if b then [x] else [] := by
    intro b hb
    have hno : d.ended = false := by cases hend <;> rfl
    have hnil : l.filter adds = [] :=
      List.filter_eq_nil_iff.2 fun z hz => by simp [Intake.adds_of_course hbefore hno z hz]
    rw [show s.past e.thread = l ++ [x] from hl, List.filter_append, hnil]
    cases b <;> simp [hb]
  have hmem : e ∈ s.log := by rw [hlog]; simp
  have htime : ∀ {u}, now? x = none → Intake.sendTime? r l = some u →
      Intake.sendTime? r (s.past e.thread) = some u := by
    intro u hx hu
    rw [show s.past e.thread = l ++ [x] from hl, Intake.sendTime?_append hx, hu]
  rw [hex] at ch
  cases hend with
  | @found w rounds task m hid hm he =>
    obtain ⟨hc, u, hu, hw⟩ := hdated
    obtain ⟨hf, ho, hle⟩ := found_of_mem_log h hx.bound hd hmem hex
    rw [hid] at hf
    rw [f.shared i] at hc
    exact ⟨u, w, t.log, e, post, htime rfl hu, hw, hlog, rfl, hpost,
      .found hc hf ho hle hex hm he (hadds false rfl)⟩
  | @joined task w rounds hid =>
    obtain ⟨hc, u, hu, hw⟩ := hdated
    obtain ⟨v, hv, ho, hat⟩ := ch.of_append
    rw [f.shared i] at hc
    have hle := sendAt_of_joining hx hd ht (hpre ▸ hbefore) hid hv hat
    rw [show stored t id = e.before.store.get? id by rw [← hs]; rfl] at hv
    refine ⟨u, w, t.log, e, post, htime rfl hu, hw, hlog, rfl, hpost,
      .joined hc hv ho hle ?_ ?_⟩
    · rw [hex]
      exact appended?_append id task r.mail
    · rw [hex]
      exact hadds true rfl
  | opened w =>
    obtain ⟨u, hu, hw⟩ := hdated
    refine ⟨u, w, t.log, e, post, htime rfl hu, hw, hlog, rfl, hpost, .opened ?_ hex ?_⟩
    · obtain ⟨_, _, -, -, hnone, -⟩ := ch.of_inserts (Intake.inserts_fresh ..)
      rw [← hs]
      exact hnone
    · rw [hex]
      exact hadds true rfl

def taskOf? (s : State) (n : Nat) : Option TaskId :=
  match s.threads[n]? with
  | some ⟨⟨_, .enqueue _⟩, .done (.ok id)⟩ => some id
  | _ => none

lemma thread_of_taskOf? (h : taskOf? s n = some id) :
    ∃ i r, s.threads[n]? = some ⟨⟨i, .enqueue r⟩, .done (.ok id)⟩ := by
  unfold taskOf? at h
  split at h
  · next i r id' hn =>
    obtain rfl := Option.some.inj h
    exact ⟨i, r, hn⟩
  · cases h

end MailQueue.Fleet

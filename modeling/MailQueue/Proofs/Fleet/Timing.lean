import MailQueue.Proofs.Fleet.Handover
import MailQueue.Proofs.Fleet.Placement

/-!
# When a message goes out

A tick lists what is due by its own time, a worker claims what was listed, and a failed attempt sets
a new time by the clock. None of them brings a task forward, as long as the clock is not set back
while a tick is under way. A request that joins a task goes out with it, whatever time it has named.

* `tickTime?` is the time of the tick that a record belongs to, `Steady` says that no worker reads
  an earlier one, and `steady_of_onward` that a clock which is never set back is enough;
* `upheld`: from a moment at which a task is open, no tick of an earlier time than the task then has
  hands it over;
* `Awaits` is the time by which a request is bound, and `sent_in_time` shows of each state that can
  be reached that no message for its task goes out earlier;
* `not_neverEarly`: this may be before the time that the request has named.
-/

namespace MailQueue.Fleet

open Queue Interleaving

variable {f : Fleet} {x₀ : Shared} {tasks : List Task} {s t : State} {id : TaskId} {u v : Task}
  {first now : Instant}

/-! ### The time of a tick -/

def dueBy? : Exchange → Option Instant
  | ⟨.store (.due now), _⟩ => some now
  | _ => none

def listedBy? (log : List Entry) (k : Nat) : Option Instant := (pastIn log k).findSome? dueBy?

def tickTime? (log : List Entry) (e : Entry) : Option Instant :=
  match e.job.duty with
  | .process k _ => listedBy? log k
  | _ => none

/-- No worker reads an earlier time than that of its tick. -/
def Steady (log : List Entry) : Prop :=
  ∀ e ∈ log, ∀ now ∈ tickTime? log e, ∀ now' ∈ now? e.exchange, now ≤ now'

instance (log : List Entry) : Decidable (Steady log) := by
  unfold Steady
  infer_instance

lemma tickTime?_congr {e e' : Entry} (h : e.job = e'.job) (log : List Entry) :
    tickTime? log e = tickTime? log e' := by
  rw [tickTime?, tickTime?, h]

lemma listedBy?_append {log : List Entry} {k : Nat} (h : listedBy? log k = some now)
    (post : List Entry) : listedBy? (log ++ post) k = some now := by
  rw [listedBy?] at h ⊢
  rw [pastIn, List.filter_append, List.map_append, List.findSome?_append, ← pastIn, h]
  rfl

lemma tickTime?_append {log : List Entry} {e : Entry} (h : tickTime? log e = some now)
    (post : List Entry) : tickTime? (log ++ post) e = some now := by
  unfold tickTime? at h ⊢
  split at h
  · exact listedBy?_append h post
  · cases h

lemma Steady.of_append {log post : List Entry} (h : Steady (log ++ post)) : Steady log :=
  fun e he now ht => h e (List.mem_append_left _ he) now (tickTime?_append ht post)

lemma listedBy?_of_mem (h : Run f.rules { shared := x₀ } s) {e : Entry} (he : e ∈ s.log) {i : Nat}
    (hj : e.job = ⟨i, .list⟩) {a : Except StoreError (List Store.Due)}
    (hx : e.exchange = ⟨.store (.due now), a⟩) :
    listedBy? s.log e.thread = some now ∧ ⟨.now, now⟩ ∈ s.past e.thread := by
  obtain ⟨n, j, q, b, before⟩ := e
  obtain rfl : j = ⟨i, .list⟩ := hj
  obtain ⟨w, hw⟩ := h.thread_of_mem_log he
  have hm : ⟨.store (.due now), a⟩ ∈ s.past n := mem_pastIn.2 ⟨_, he, rfl, hx⟩
  rcases listing (h.path hw) with ⟨hl, -⟩ | ⟨_, hl, -⟩ | ⟨o, -, hl | ⟨now', a', hl⟩, -⟩ <;>
    rw [hl] at hm
  · cases hm
  · cases List.mem_singleton.1 hm
  · cases hm
  · rcases List.mem_pair.1 hm with hm | hm
    · cases hm
    · cases hm
      exact ⟨by rw [listedBy?, show pastIn s.log n = _ from hl]; rfl, by rw [hl]; simp⟩

lemma tick_of_process (h : Run f.rules { shared := x₀ } s) {n i k : Nat} {w : Work TaskOutcome}
    (hn : s.threads[n]? = some ⟨⟨i, .process k u⟩, w⟩) :
    ∃ d ∈ s.log, ∃ now due, .task u ∈ due ∧
      d.exchange = ⟨.store (.due now), (Except.ok due : Except StoreError (List Store.Due))⟩ ∧
      listedBy? s.log k = some now ∧ ⟨.now, now⟩ ∈ s.past k := by
  obtain ⟨d, hd, now, due, rfl, hj, hex, hu⟩ := listed_of_process h hn
  exact ⟨d, hd, now, due, hu, hex, listedBy?_of_mem h hd hj hex⟩

/-! ### Clocks that are not set back -/

lemma clock_of_now (h : Run f.rules { shared := x₀ } s) {e : Entry} (he : e ∈ s.log)
    (hx : now? e.exchange = some now) : e.before.clock = now := by
  obtain ⟨pre, post, hlog⟩ := List.append_of_mem he
  obtain ⟨t, next, y, -, -, -, -, ha, -⟩ := h.split hlog
  obtain ⟨n, j, q, a, before⟩ := e
  have ha : f.Answers j.queue before q a y := ha
  cases ha with
  | now => exact Option.some.inj hx
  | _ => cases hx

/-- **A clock that is never set back** is steady. -/
theorem steady_of_onward (h : Run f.rules { shared := x₀ } s)
    (hc : s.log.Pairwise fun e e' => e.before.clock ≤ e'.before.clock) : Steady s.log := by
  intro e he now ht now' hn
  obtain ⟨pre, post, hlog⟩ := List.append_of_mem he
  obtain ⟨t, next, y, hr, rfl, -, asks, -⟩ := h.split hlog
  have hclock := clock_of_now h he hn
  obtain ⟨n, ⟨i, duty⟩, q, a, before⟩ := e
  cases duty with
  | process k u =>
    -- the tick was told the time before its worker was started
    obtain ⟨-, -, now₀, -, -, -, hl, hp⟩ := tick_of_process hr asks
    obtain ⟨d, hd, -, hdx⟩ := mem_pastIn.1 hp
    have hds : d ∈ s.log := by
      rw [hlog]
      exact List.mem_append_left _ hd
    have hl' := listedBy?_append hl (⟨n, ⟨i, .process k u⟩, q, a, before⟩ :: post)
    rw [← hlog] at hl'
    obtain rfl : now₀ = now := Option.some.inj (hl'.symm.trans ht)
    rw [hlog] at hc
    have hle := (List.pairwise_append.1 hc).2.2 d hd _ (List.mem_cons_self ..)
    rw [clock_of_now h hds (by rw [hdx]; rfl), hclock] at hle
    exact hle
  | _ => cases ht

/-! ### No task is brought forward -/

/-- The task keeps its time, or has a later one, and who has it in hand works for a tick of that
time or a later one. -/
structure Upheld (first : Instant) (id : TaskId) (m : Memory) (log : List Entry) : Prop where
  stored : ∀ v, m.get? id = some v → first ≤ v.sendAt
  hand : ∀ n, InHand log n id →
    ∃ e ∈ log, e.thread = n ∧ ∃ now, tickTime? log e = some now ∧ first ≤ now

/-- One more record, whose job had the task in hand before or takes it for a tick that is late
enough. -/
lemma Upheld.record {m m' : Memory} {log : List Entry} {e : Entry} (c : Upheld first id m log)
    (hv : ∀ v, m'.get? id = some v → first ≤ v.sendAt)
    (hh : InHand (log ++ [e]) e.thread id →
      InHand log e.thread id ∨ ∃ now, tickTime? log e = some now ∧ first ≤ now) :
    Upheld first id m' (log ++ [e]) := by
  refine ⟨hv, fun n hn => ?_⟩
  have old : InHand log n id →
      ∃ e' ∈ log ++ [e], e'.thread = n ∧ ∃ now, tickTime? (log ++ [e]) e' = some now ∧
        first ≤ now := by
    intro hn
    obtain ⟨e', he', hen, now, ht, hle⟩ := c.hand n hn
    exact ⟨e', List.mem_append_left _ he', hen, now, tickTime?_append ht [e], hle⟩
  rcases eq_or_ne e.thread n with rfl | hne
  · rcases hh hn with hold | ⟨now, ht, hle⟩
    · exact old hold
    · exact ⟨e, by simp, rfl, now, tickTime?_append ht [e], hle⟩
  · exact old ((inHand_append_of_ne hne).1 hn)

lemma Upheld.le_retryAt (h : Run f.rules { shared := x₀ } s) (hs : Steady s.log)
    (c : Upheld first id s.shared.store s.log) {n i k : Nat} {w : Work TaskOutcome}
    (hn : s.threads[n]? = some ⟨⟨i, .process k u⟩, w⟩) (hand : InHand s.log n id)
    {retryAt : Instant} {transport : Nat} {error : DeliveryError}
    (hd : Course (Attempt.Advance (f.queue i) u) (Attempt.begin u) (s.past n)
      (.puttingBack retryAt transport error)) : first ≤ retryAt := by
  obtain ⟨now', hm, rfl⟩ := Attempt.timed_of_course hd
  obtain ⟨d, hds, rfl, hdx⟩ := mem_pastIn.1 hm
  obtain ⟨e, he, hen, now, ht, hle⟩ := c.hand _ hand
  rw [← hen] at hn
  have hjob : e.job = d.job := (h.job_eq he hn).trans (h.job_eq hds (hen ▸ hn)).symm
  have hnow : now ≤ now' := hs d hds now ((tickTime?_congr hjob s.log).symm.trans ht) now' (by
    rw [hdx]
    rfl)
  exact Instant.le_trans (Instant.le_trans hle hnow) (RetryPolicy.le_retryAt ..)

/-- The time of a task after an answer: as it was, that of a new task, or that to which its worker
puts it back. -/
lemma Change.sendAt {n : Nat} {j : Job} {x : Exchange} (ch : Change f s n j id x (some v)) :
    (∃ u, stored s id = some u ∧ v.sendAt = u.sendAt) ∨ inserts id x = true ∨
      ∃ k t transport error, j.duty = .process k t ∧ t.id = id ∧
        Course (Attempt.Advance (f.queue j.queue) t) (Attempt.begin t) (s.past n)
          (.puttingBack v.sendAt transport error) := by
  generalize ho : some v = o at ch
  cases ch with
  | still => exact .inl ⟨v, ho.symm, rfl⟩
  | born => exact .inr (.inl (Intake.inserts_fresh ..))
  | joined _ _ _ hu | taken _ _ _ hu =>
    obtain rfl := Option.some.inj ho
    exact .inl ⟨_, hu, rfl⟩
  | withdrawn _ hu =>
    split at ho
    · obtain rfl := Option.some.inj ho
      exact .inl ⟨_, hu, rfl⟩
    · cases ho
  | ended hj ht hd he =>
    cases he with
    | removed | dropped => cases ho
    | putBack =>
      obtain rfl := Option.some.inj ho
      exact .inr (.inr ⟨_, _, _, _, hj, ht, hd⟩)
    | gaveUp _ hu =>
      obtain rfl := Option.some.inj ho
      exact .inl ⟨_, hu, rfl⟩

lemma Upheld.changed (hx : Stock f x₀) (hd : x₀.store.Distinct)
    (h : Run f.rules { shared := x₀ } s) (hs : Steady s.log) {n : Nat} {j : Job} {q : Ask}
    {next : q.Answer → Work j.Result} {a : q.Answer} {m' : Memory} {x : Exchange} {o : Option Task}
    (c : Upheld first id s.shared.store s.log) (hk : Known x₀ s.log id)
    (asks : s.threads[n]? = some ⟨j, .ask q next⟩) (ch : Change f s n j id x o)
    (he : (⟨n, j, q, a, s.shared⟩ : Entry).exchange = x) (ho : m'.get? id = o) :
    Upheld first id m' (s.log ++ [⟨n, j, q, a, s.shared⟩]) := by
  obtain ⟨i, duty⟩ := j
  refine c.record (fun v hv => ?_) fun hn => ?_
  · rw [← ho, hv] at ch
    rcases ch.sendAt with ⟨u, hu, hsame⟩ | hi | ⟨k, t, transport, error, rfl, rfl, hcourse⟩
    · rw [hsame]
      exact c.stored u hu
    · exact (ch.not_known h asks hi hk).elim
    · exact c.le_retryAt h hs asks (holds_of_course hcourse rfl rfl) hcourse
  · cases ch with
    | still hc hr => exact .inl ((inHand_append_of_quiet (he ▸ hc) (he ▸ hr)).1 hn)
    | born | joined | withdrawn =>
      exact .inl ((inHand_append_of_quiet (he ▸ rfl) (he ▸ rfl)).1 hn)
    | ended _ _ _ hends =>
      exact absurd (inHand_append_self.1 hn) (not_holds_of_resolves (he ▸ hends.record.2.1))
    | @taken k t u hj ht hp hu hopen hat =>
      -- the task still has the time for which it was listed
      obtain rfl := hj
      subst ht
      obtain ⟨d, hdm, now, due, hdue, hex, hl, -⟩ := tick_of_process h asks
      obtain ⟨hto, htat, -⟩ := Task.isDue_iff.1 (due_of_mem_log h hx.bound hdm hex hdue).2
      have hsame := sendAt_since hx h hdm (listed_as_stored h hx.bound hd hdm hex hdue) hto hu hat
      have hle := c.stored u hu
      rw [hsame] at hle
      exact .inr ⟨now, hl, Instant.le_trans hle htat⟩

lemma Upheld.sends (h : Run f.rules { shared := x₀ } s) (c : Upheld first id s.shared.store s.log)
    {n : Nat} {j : Job} {q : Ask} {next : q.Answer → Work j.Result} {a : q.Answer}
    (asks : s.threads[n]? = some ⟨j, .ask q next⟩)
    (hs : sendsFor id ⟨n, j, q, a, s.shared⟩ = true) :
    ∃ now, tickTime? s.log ⟨n, j, q, a, s.shared⟩ = some now ∧ first ≤ now := by
  obtain ⟨e, he, rfl, now, hnow, hle⟩ := c.hand n (inHand_of_sends h asks hs).1
  have hjob : e.job = j := h.job_eq he asks
  exact ⟨now, (tickTime?_congr hjob s.log).symm.trans hnow, hle⟩

/-- **From a moment at which a task is open** on it is handed over by ticks only that are not before
the time which it has then. -/
theorem upheld (hx : Stock f x₀) (hd : x₀.store.Distinct) (h : Run f.rules { shared := x₀ } s)
    (h' : Run f.rules s t) (hs : Steady t.log) (hu : stored s id = some u) (ho : u.isOpen = true) :
    ∃ post, t.log = s.log ++ post ∧ ∀ e ∈ post, sendsFor id e = true →
      ∃ now, tickTime? t.log e = some now ∧ u.sendAt ≤ now := by
  have key : Steady t.log → Known x₀ t.log id ∧ Upheld u.sendAt id t.shared.store t.log ∧
      ∃ post, t.log = s.log ++ post ∧ ∀ e ∈ post, sendsFor id e = true →
        ∃ now, tickTime? t.log e = some now ∧ u.sendAt ≤ now := by
    refine view_since (P := fun m log => Steady log → Known x₀ log id ∧ Upheld u.sendAt id m log ∧
      ∃ post, log = s.log ++ post ∧ ∀ e ∈ post, sendsFor id e = true →
        ∃ now, tickTime? log e = some now ∧ u.sendAt ≤ now) h h' (fun _ => ?_) ?_
    · refine ⟨known_of_stored hx h hu, ⟨fun v hv => ?_, fun n hn => ?_⟩, [], by simp⟩
      · obtain rfl : u = v := Option.some.inj (hu.symm.trans hv)
        exact Instant.le_refl _
      · exact absurd hn (((tenure hx h id).free_of_open hu ho).1 n)
    · intro t n j q next a y ht _ asks ha ih hs
      obtain ⟨hk, hup, post, hlog, hpost⟩ := ih hs.of_append
      have hup' : Upheld u.sendAt id y.store (t.log ++ [⟨n, j, q, a, t.shared⟩]) :=
        hup.changed hx hd ht hs.of_append hk asks (change ht hx.bound asks ha id) rfl rfl
      refine ⟨hk.mono (List.prefix_append _ _), hup', post ++ [⟨n, j, q, a, t.shared⟩],
        by rw [hlog, List.append_assoc], fun e he hsend => ?_⟩
      rcases List.mem_append.1 he with he | he
      · obtain ⟨now, hnow, hle⟩ := hpost e he hsend
        exact ⟨now, tickTime?_append hnow _, hle⟩
      · obtain rfl := List.mem_singleton.1 he
        obtain ⟨now, hnow, hle⟩ := hup.sends ht asks hsend
        exact ⟨now, tickTime?_append hnow _, hle⟩
  exact (key hs).2.2

/-! ### The time by which a request is bound -/

/-- The time before which the task of a request is not handed over. `pre` are the records before the
last of the request, which is `e`, and `w` is the latest time for which the task may be due. -/
inductive Awaits (f : Fleet) (id : TaskId) (w : Instant) (pre : List Entry) (e : Entry) :
    Instant → Prop where
  /-- That of its own task, of which no message was handed over before. -/
  | own (hx : inserts id e.exchange = true) (hs : ∀ e' ∈ pre, sendsFor id e' = false) :
      Awaits f id w pre e w
  /-- That of the open task which the request has joined, or where it has found its mail. -/
  | joined {u : Task} (hc : f.config.concat.enabled = true)
      (hu : e.before.store.get? id = some u) (ho : u.isOpen = true) (hw : u.sendAt ≤ w) :
      Awaits f id w pre e u.sendAt

lemma upheld_of_before (hx : Stock f x₀) (hd : x₀.store.Distinct)
    (h : Run f.rules { shared := x₀ } s) (hs : Steady s.log) {pre post : List Entry} {e : Entry}
    (hlog : s.log = pre ++ e :: post) (hu : e.before.store.get? id = some u)
    (ho : u.isOpen = true) : ∀ e' ∈ post, sendsFor id e' = true →
      ∃ now, tickTime? s.log e' = some now ∧ u.sendAt ≤ now := by
  obtain ⟨t, next, y, ht, rfl, hst, asks, ha, -, hrun⟩ := change_of_split h hx.bound hlog id
  rw [← hst] at hu
  obtain ⟨post', hlog', hpost⟩ :=
    upheld hx hd ht ((Run.refl.snoc (.answer asks ha)).trans hrun) hs hu ho
  obtain rfl : e :: post = post' := List.append_cancel_left (hlog.symm.trans hlog')
  exact fun e' he' => hpost e' (List.mem_cons_of_mem _ he')

lemma upheld_of_opened (hx : Stock f x₀) (hd : x₀.store.Distinct)
    (h : Run f.rules { shared := x₀ } s) (hs : Steady s.log) {pre post : List Entry} {e : Entry}
    (hlog : s.log = pre ++ e :: post) {r : Request} {w : Instant}
    (hex : e.exchange = ⟨.store (.insert (Intake.fresh r id w)),
      (Except.ok () : Except StoreError Unit)⟩) :
    (∀ e' ∈ pre, sendsFor id e' = false) ∧ ∀ e' ∈ post, sendsFor id e' = true →
      ∃ now, tickTime? s.log e' = some now ∧ w ≤ now := by
  obtain ⟨v, next, y, hv, rfl, hst, asks, ha, ch, hrun⟩ := change_of_split h hx.bound hlog id
  rw [hex] at ch
  refine ⟨fun e' he' => ?_, ?_⟩
  · -- what is handed over was claimed before, and so was known
    by_contra hsend
    obtain ⟨c, hc, -, hclaim⟩ := claimed_of_sends hv he' (by simpa using hsend)
    exact ch.not_known hv asks (Intake.inserts_fresh ..) (known_of_claim hx hv hc hclaim)
  · obtain ⟨r', sendAt, -, -, -, hex', ho⟩ := ch.of_inserts (Intake.inserts_fresh ..)
    generalize Intake.fresh r' id sendAt = task at hex' ho
    cases hex'
    obtain ⟨post', hlog', hpost⟩ := upheld hx hd (hv.snoc (.answer asks ha)) hrun hs ho rfl
    rw [State.log_answered hst, hlog, List.append_assoc] at hlog'
    obtain rfl := (List.cons.inj (List.append_cancel_left hlog')).2
    exact hpost

/-- The account of a request that has ended with an identifier. It was to be sent at `t`, its task
may be due at `w` at the latest and is not handed over before `first`; `e` is the record of its last
answer. -/
structure Appointment (f : Fleet) (s : State) (n i : Nat) (r : Request) (id : TaskId)
    (t w first : Instant) (pre : List Entry) (e : Entry) (post : List Entry) : Prop where
  time : Intake.sendTime? r (s.past n) = some t
  latest : Intake.OpensAt (f.queue i) t w
  in_order : t ≤ w
  log : s.log = pre ++ e :: post
  last : e.thread = n ∧ ∀ e' ∈ post, e'.thread ≠ n
  awaits : Awaits f id w pre e first
  /-- Each message for the task, from then on, is of a tick of this time or a later one. -/
  sent : ∀ e' ∈ post, sendsFor id e' = true → ∃ now, tickTime? s.log e' = some now ∧ first ≤ now

lemma appointment (hx : Stock f x₀) (hd : x₀.store.Distinct) (h : Run f.rules { shared := x₀ } s)
    (hs : Steady s.log) {n i : Nat} {r : Request}
    (hn : s.threads[n]? = some (⟨⟨i, .enqueue r⟩, .done (.ok id)⟩ : Thread)) :
    ∃ t w first pre e post, Appointment f s n i r id t w first pre e post := by
  obtain ⟨t, w, pre, e, post, ht, hw, hlog, he, hpost, hp⟩ := placed hx hd h hn
  cases hp with
  | @joined u hc hu ho hle | @found u _ hc hu ho hle =>
    exact ⟨t, w, u.sendAt, pre, e, post, ht, hw, hw.le, hlog, ⟨he, hpost⟩, .joined hc hu ho hle,
      upheld_of_before hx hd h hs hlog hu ho⟩
  | opened _ hex =>
    obtain ⟨hno, hup⟩ := upheld_of_opened hx hd h hs hlog hex
    have hi : inserts id e.exchange = true := by
      rw [hex]
      exact Intake.inserts_fresh ..
    exact ⟨t, w, w, pre, e, post, ht, hw, hw.le, hlog, ⟨he, hpost⟩, .own hi hno, hup⟩

/-- No message that holds the mail of a request goes out before the time of the request. -/
def NeverEarly (s : State) : Prop :=
  ∀ (n i : Nat) (r : Request) (id : TaskId) (t : Instant),
    s.threads[n]? = some (⟨⟨i, .enqueue r⟩, .done (.ok id)⟩ : Thread) →
    Intake.sendTime? r (s.past n) = some t → ∀ e ∈ s.log, sendsFor id e = true →
    (∃ u, e.job.task? = some u ∧ r.mail ∈ u.fragments) →
    ∀ now, tickTime? s.log e = some now → t ≤ now

/-- Where mails are not merged all messages for the task of a request are bound by its time. -/
lemma Appointment.le_of_single {n i : Nat} {r : Request} {t w : Instant} {pre post : List Entry}
    {e : Entry} (p : Appointment f s n i r id t w first pre e post)
    (hc : f.config.concat.enabled = false) {e' : Entry} (he : e' ∈ s.log)
    (hs : sendsFor id e' = true) (hnow : tickTime? s.log e' = some now) : t ≤ now := by
  cases p.awaits with
  | joined hon =>
    rw [hc] at hon
    cases hon
  | own hi hno =>
    rw [p.log] at he
    rcases List.mem_append.1 he with he | he
    · rw [hno e' he] at hs
      cases hs
    rcases List.mem_cons.1 he with rfl | he
    · obtain ⟨k, u, o, -, -, ho⟩ := job_of_sendsFor hs
      rw [outcome_of_inserts hi] at ho
      cases ho
    · obtain ⟨now', hnow', hle⟩ := p.sent e' he hs
      obtain rfl : now' = now := Option.some.inj (hnow'.symm.trans hnow)
      exact Instant.le_trans p.in_order hle

/-- **No message for a request goes out before the time of the task that carries it**: that of its
own task, which is no earlier than its own time, or that of the task it has joined. Where mails are
not merged none goes out before the time of the request. -/
theorem sent_in_time (hd : (f.storeOf tasks).Distinct) (h : f.ReachableOver tasks s)
    (hs : Steady s.log) :
    (f.config.concat.enabled = false → NeverEarly s) ∧
    ∀ (n i : Nat) (r : Request) (id : TaskId),
      s.threads[n]? = some (⟨⟨i, .enqueue r⟩, .done (.ok id)⟩ : Thread) →
      ∃ t w first pre e post, Appointment f s n i r id t w first pre e post := by
  obtain ⟨clock, hr⟩ := h
  have hx := stock_stocked f tasks clock
  refine ⟨fun hc n i r id t hn ht e he hsend _ now hnow => ?_, fun n i r id hn =>
    appointment hx hd hr hs hn⟩
  obtain ⟨t', w, first, pre, d, post, p⟩ := appointment hx hd hr hs hn
  obtain rfl : t' = t := Option.some.inj (p.time.symm.trans ht)
  exact p.le_of_single hc he hsend hnow

/-- A request that names a time an hour away joins a task that is sent after a minute. -/
def hastened : List Move :=
  [.start 0 (.enqueue (note "a@x" "one")), .reply 0, .name 0 (.ofNat 1), .reply 0,
    .start 0 (.enqueue { note "a@x" "two" with sendAt := some hour }), .reply 1, .reply 1,
    .clock minute, .start 0 .list, .reply 2, .reply 2, .takeUp 2,
    .reply 3, .reply 3, .outcome 3 (.report { accepted := ["a@x"] })]

theorem sent_in_time_hastened : ∃ s i r, (merging.storeOf []).Distinct ∧
    merging.ReachableOver [] s ∧ Steady s.log ∧
    s.threads[1]? = some (⟨⟨i, .enqueue r⟩, .done (.ok (.ofNat 1))⟩ : Thread) ∧
    (s.log.any (sendsFor (.ofNat 1))) = true ∧
    ∃ t w first pre e post, Appointment merging s 1 i r (.ofNat 1) t w first pre e post := by
  have key : (merging.playAll { shared := merging.stocked [] .epoch } hastened).map (fun s =>
      (decide (Steady s.log), taskOf? s 1, s.log.any (sendsFor (.ofNat 1)))) =
      some (true, some (.ofNat 1), true) := by decide +kernel
  obtain ⟨s, hs, hv⟩ := Option.map_eq_some_iff.1 key
  simp only [Prod.mk.injEq, decide_eq_true_eq] at hv
  obtain ⟨hsteady, htask, hsent⟩ := hv
  obtain ⟨i, r, hn⟩ := thread_of_taskOf? htask
  have hd : (merging.storeOf []).Distinct := distinct_first merging .epoch
  have hreach : merging.ReachableOver [] s := ⟨.epoch, run_of_playAll hs⟩
  exact ⟨s, i, r, hd, hreach, hsteady, hn, hsent, (sent_in_time hd hreach hsteady).2 _ _ _ _ hn⟩

/-! ### Before the time that was named -/

def isNote (address line : String) (m : Mail) : Bool :=
  m.recipient == .one address && m.sender.isNone && m.subject.isNone && m.text == some line &&
    m.html.isNone && m.extra.entries.isEmpty

lemma eq_of_isNote {address line : String} {m : Mail} (h : isNote address line m = true) :
    m = (note address line).mail := by
  obtain ⟨recipient, sender, subject, text, html, ⟨entries, hnodup⟩⟩ := m
  simp only [isNote, Bool.and_eq_true, beq_iff_eq, Option.isNone_iff_eq_none,
    List.isEmpty_iff] at h
  obtain ⟨⟨⟨⟨⟨rfl, rfl⟩, rfl⟩, rfl⟩, rfl⟩, rfl⟩ := h
  rfl

/-- The request of this number is for a note, and the record of this place is of a message that
holds it, from a tick before its time. -/
def early (s : State) (address line : String) (n place : Nat) : Bool :=
  match s.threads[n]?, s.log[place]? with
  | some ⟨⟨_, .enqueue r⟩, .done (.ok id)⟩, some e =>
    isNote address line r.mail && sendsFor id e &&
      (e.job.task?.any fun u => u.fragments.any (isNote address line)) &&
      match Intake.sendTime? r (s.past n), tickTime? s.log e with
      | some t, some now => decide (now < t)
      | _, _ => false
  | _, _ => false

lemma not_neverEarly_of_early {address line : String} {n place : Nat}
    (h : early s address line n place = true) : ¬ NeverEarly s := by
  intro hall
  unfold early at h
  split at h
  · next i r id e hn he =>
    simp only [Bool.and_eq_true] at h
    obtain ⟨⟨⟨hr, hsend⟩, hu⟩, h⟩ := h
    obtain ⟨u, hu, hm⟩ := (Option.any_eq_true ..).1 hu
    obtain ⟨m, hm, hnote⟩ := List.any_eq_true.1 hm
    have hmail : r.mail ∈ u.fragments := by
      rw [eq_of_isNote hr, ← eq_of_isNote hnote]
      exact hm
    split at h
    · next t now ht hnow =>
      have hle := hall n i r id t hn ht e (List.mem_of_getElem? he) hsend ⟨u, hu, hmail⟩ now hnow
      have hlt : now < t := of_decide_eq_true h
      exact absurd hle (Int.not_le.2 hlt)
    · cases h
  · cases h

/-- The clock is set back an hour while a worker fails, and what it has put back is sent before the
hour is over. -/
def setBack : List Move :=
  [.start 0 (.enqueue (note "a@x" "one")), .name 0 (.ofNat 1), .reply 0, .start 0 .list, .reply 1,
    .reply 1, .takeUp 1, .reply 2, .reply 2, .outcome 2 (.error (.connection "down")),
    .clock ⟨-3600000000000, by decide, by decide⟩, .reply 2, .reply 2, .reply 2,
    .clock ⟨-3000000000000, by decide, by decide⟩, .start 0 .list, .reply 3, .reply 3, .takeUp 3,
    .reply 4, .reply 4, .outcome 4 (.report { accepted := ["a@x"] })]

/-- A request goes out before its time with a task that it joins, and, even where mails are not
merged, when the clock is set back during a tick. -/
theorem not_neverEarly :
    (¬ ∀ (f : Fleet) (s : State), f.config.validate = .ok () → f.Reachable s → Steady s.log →
      NeverEarly s) ∧
    ¬ ∀ (f : Fleet) (s : State), f.config.validate = .ok () → f.config.concat.enabled = false →
      f.Reachable s → NeverEarly s := by
  constructor <;> intro hall
  · have key : (merging.playAll { shared := merging.first [] .epoch } hastened).map (fun s =>
        (decide (Steady s.log), early s "a@x" "two" 1 9)) = some (true, true) := by decide +kernel
    obtain ⟨s, hs, hv⟩ := Option.map_eq_some_iff.1 key
    obtain ⟨hsteady, hv⟩ := Prod.mk.inj hv
    exact not_neverEarly_of_early hv
      (hall merging s rfl (reachable_of_playAll hs) (of_decide_eq_true hsteady))
  · have key : ((uniform {} [⟨"smtp", none⟩]).playAll
        { shared := (uniform {} [⟨"smtp", none⟩]).first [] .epoch } setBack).map (fun s =>
        early s "a@x" "one" 0 14) = some true := by decide +kernel
    obtain ⟨s, hs, hv⟩ := Option.map_eq_some_iff.1 key
    exact not_neverEarly_of_early hv
      (hall (uniform {} [⟨"smtp", none⟩]) s rfl rfl (reachable_of_playAll hs))

end MailQueue.Fleet

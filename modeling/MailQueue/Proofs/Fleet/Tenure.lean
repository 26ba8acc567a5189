import MailQueue.Proofs.Fleet.Hand

/-!
# What a worker may rely on

What holds of a task while a worker has it in hand, whatever the store held at first.

* `ReachableOver` is what can be reached from a store with tasks in it;
* `known_of_stored` and `not_known_of_born`: a task that was stored once is never stored anew;
* `Tenure` says who may write a task, and `tenure` shows it of each state that can be reached;
* `attempts_since`: attempts are never taken back, and as long as none is counted an open task
  keeps its time;
* `Retired.stays`: a task that is neither open nor in any hand is never touched again.
-/

namespace MailQueue.Fleet

open Queue Interleaving

variable {f : Fleet} {x₀ : Shared} {s t : State} {id : TaskId} {u v : Task}

/-! ### Stores that hold tasks already -/

/-- What is shared at first over a store with these tasks. -/
def stocked (f : Fleet) (tasks : List Task) (clock : Instant) : Shared :=
  { f.first tasks clock with issued := tasks.map Task.id }

/-- What can be reached from a store with these tasks. Their identifiers are not handed out
again. -/
def ReachableOver (f : Fleet) (tasks : List Task) (s : State) : Prop :=
  ∃ clock, Run f.rules { shared := f.stocked tasks clock } s

/-- The fleet uses the store, and the identifiers in it are in use. -/
structure Stock (f : Fleet) (x₀ : Shared) : Prop where
  bound : x₀.store.binding = some (Queue.binding f.config)
  issued : ∀ {id u}, x₀.store.get? id = some u → id ∈ x₀.issued

lemma stock_stocked (f : Fleet) (tasks : List Task) (clock : Instant) :
    Stock f (f.stocked tasks clock) where
  bound := rfl
  issued {id u} h := by
    have hid : u.id = id := Memory.id_of_get? h
    exact List.mem_map.2 ⟨u, List.mem_of_find?_eq_some h, hid⟩

lemma stock_first (f : Fleet) (clock : Instant) : Stock f (f.first [] clock) :=
  stock_stocked f [] clock

/-! ### Identifiers in use -/

/-- The identifier was in use at first, or a task was stored under it. -/
def Known (x₀ : Shared) (log : List Entry) (id : TaskId) : Prop :=
  id ∈ x₀.issued ∨ ∃ e ∈ log, inserts id e.exchange = true

lemma Known.mono {log log' : List Entry} (h : Known x₀ log id) (hl : log <+: log') :
    Known x₀ log' id :=
  h.imp_right fun ⟨e, he, hi⟩ => ⟨e, hl.subset he, hi⟩

lemma not_issued_of_fresh (h : Run f.rules { shared := x₀ } s) {e : Entry} (he : e ∈ s.log)
    (hx : fresh? e.exchange = some id) : id ∉ x₀.issued := by
  have key : (∀ i ∈ x₀.issued, i ∈ s.shared.issued) ∧
      ∀ e ∈ s.log, ∀ i, fresh? e.exchange = some i → i ∉ x₀.issued := by
    refine run_view (P := fun _ issued log => (∀ i ∈ x₀.issued, i ∈ issued) ∧
      ∀ e ∈ log, ∀ i, fresh? e.exchange = some i → i ∉ x₀.issued) (by simp) ?_ h
    rintro s n j q next a y - - ha ⟨hin, hout⟩
    have hlast : ∀ i, fresh? ⟨q, a⟩ = some i → i ∉ x₀.issued := by
      intro i hi
      cases ha with
      | freshId i' hi' =>
        obtain rfl := Option.some.inj hi
        exact fun hm => hi' (hin i' hm)
      | _ => cases hi
    refine ⟨fun i hi => ?_, fun e he i hi => ?_⟩
    · cases ha with
      | freshId => exact List.mem_cons_of_mem _ (hin i hi)
      | _ => exact hin i hi
    · rcases List.mem_append.1 he with he | he
      · exact hout e he i hi
      · rw [List.mem_singleton.1 he] at hi
        exact hlast i hi
  exact key.2 e he id hx

lemma not_known_of_born (h : Run f.rules { shared := x₀ } s) {n i : Nat} {r : Request}
    {w : Work (Except EnqueueError TaskId)} {task : Task}
    (hn : s.threads[n]? = some ⟨⟨i, .enqueue r⟩, w⟩)
    (hd : Course (Intake.Advance (f.queue i) r) (Intake.begin (f.queue i) r) (s.past n)
      (.storing task)) : ¬ Known x₀ s.log task.id := by
  rintro (hi | ⟨e, he, hi⟩)
  · have hm : task.id ∈ (s.past n).filterMap fresh? := by
      rw [(Intake.fresh_of_course hd rfl).2.1]
      exact List.mem_singleton_self _
    obtain ⟨x, hx, hid⟩ := List.mem_filterMap.1 hm
    obtain ⟨e, he, -, rfl⟩ := mem_pastIn.1 hx
    exact not_issued_of_fresh h he hid hi
  · rw [not_inserted_of_storing h hn hd e he] at hi
    cases hi

lemma Change.stored_or_inserts {n : Nat} {j : Job} {x : Exchange}
    (ch : Change f s n j id x (some v)) : (∃ u, stored s id = some u) ∨ inserts id x = true := by
  generalize ho : some v = o at ch
  cases ch with
  | still => exact .inl ⟨v, ho.symm⟩
  | born => exact .inr (Intake.inserts_fresh ..)
  | joined _ _ _ hu | withdrawn _ hu | taken _ _ _ hu => exact .inl ⟨_, hu⟩
  | ended _ _ _ he =>
    cases he with
    | removed | dropped => cases ho
    | putBack _ _ _ hu | gaveUp _ hu => exact .inl ⟨_, hu⟩

lemma Change.not_known {n : Nat} {j : Job} {q : Ask} {next : q.Answer → Work j.Result}
    {x : Exchange} {o : Option Task} (h : Run f.rules { shared := x₀ } s)
    (asks : s.threads[n]? = some ⟨j, .ask q next⟩) (ch : Change f s n j id x o)
    (hi : inserts id x = true) : ¬ Known x₀ s.log id := by
  obtain ⟨r, sendAt, hj, hd, -⟩ := ch.of_inserts hi
  obtain ⟨i, duty⟩ := j
  obtain rfl : duty = .enqueue r := hj
  exact not_known_of_born h asks hd

lemma known_of_stored (hx : Stock f x₀) (h : Run f.rules { shared := x₀ } s)
    (hu : stored s id = some u) : Known x₀ s.log id := by
  have key : ∀ u, stored s id = some u → Known x₀ s.log id := by
    refine run_view (P := fun m _ log => ∀ u, m.get? id = some u → Known x₀ log id)
      (fun u hu => .inl (hx.issued hu)) ?_ h
    intro s n j q next a y hs asks ha ih v hv
    have ch := change hs hx.bound asks ha id
    rw [hv] at ch
    rcases ch.stored_or_inserts with ⟨u, hu⟩ | hi
    · exact (ih u hu).mono (List.prefix_append _ _)
    · exact .inr ⟨⟨n, j, q, a, s.shared⟩, by simp, hi⟩
  exact key u hu

lemma known_of_claim (hx : Stock f x₀) (h : Run f.rules { shared := x₀ } s) {e : Entry}
    (he : e ∈ s.log) (hc : (claim? id e.exchange).isSome = true) : Known x₀ s.log id := by
  obtain ⟨pre, post, hlog⟩ := List.append_of_mem he
  obtain ⟨t, next, y, ht, hpre, -, -, -, ch, -⟩ := change_of_split h hx.bound hlog id
  obtain ⟨k, t', u, -, -, hu, -⟩ := ch.of_claim hc
  refine (known_of_stored hx ht hu).mono ?_
  rw [hpre, hlog]
  exact List.prefix_append _ _

/-! ### The invariant -/

/-- The task as the claim of its worker has left it. -/
structure Held (id : TaskId) (l : List Exchange) (u : Task) : Prop where
  sent : u.sent = true
  cancelled : u.cancelled = false
  failed : u.failed = false
  attempts : ∀ x ∈ l, ∀ a, claim? id x = some a → u.attempts = a

lemma Held.not_open {l : List Exchange} (h : Held id l u) : u.isOpen = false := by
  simp [Task.isOpen, h.sent]

/-- The attempt that a task in hand bears is that of its claim. -/
lemma Held.attempts_eq {q : Queue} {t : Task} {l : List Exchange} {d : Attempt}
    (held : Held t.id l u) (hd : Course (Attempt.Advance q t) (Attempt.begin t) l d)
    (ht : d.took = true) : u.attempts = nextAttempt t.attempts := by
  obtain ⟨x, hx, hc⟩ := Attempt.claim_of_took hd ht
  obtain ⟨a, ha⟩ := Option.isSome_iff_exists.1 hc
  have hm : a ∈ l.filterMap (claim? t.id) := List.mem_filterMap.2 ⟨x, hx, ha⟩
  rw [Attempt.claims_of_course hd, if_pos ⟨rfl, ht⟩, List.mem_singleton] at hm
  rw [held.attempts x hx a ha, hm]

/-- Who may write a task. -/
structure Tenure (id : TaskId) (m : Memory) (log : List Entry) : Prop where
  sole : ∀ n k, InHand log n id → InHand log k id → n = k
  /-- A task in hand is stored as its worker has claimed it. -/
  held : ∀ n, InHand log n id → ∃ u, m.get? id = some u ∧ Held id (pastIn log n) u
  /-- Once a message was accepted the task is not open, and only who sent it may have it in hand. -/
  closed : ∀ e ∈ log, sendsFor id e = true → accepts e.exchange = true →
    (∀ u, m.get? id = some u → u.isOpen = false) ∧ ∀ k, InHand log k id → k = e.thread

section Steps

variable {m m' : Memory} {log : List Entry} {e : Entry}

/-- An open task is in no hand, and no message for it was accepted. -/
lemma Tenure.free_of_open (c : Tenure id m log) (hu : m.get? id = some u) (ho : u.isOpen = true) :
    (∀ k, ¬ InHand log k id) ∧
      ∀ e ∈ log, sendsFor id e = true → accepts e.exchange = false := by
  refine ⟨fun k hk => ?_, fun e he hs => ?_⟩
  · obtain ⟨w, hw, hh⟩ := c.held k hk
    obtain rfl : u = w := Option.some.inj (hu.symm.trans hw)
    rw [hh.not_open] at ho
    cases ho
  · by_contra ha
    have := (c.closed e he hs (by simpa using ha)).1 u hu
    rw [ho] at this
    cases this

lemma Tenure.still (c : Tenure id m log) (hv : m'.get? id = m.get? id)
    (hc : claim? id e.exchange = none) (hr : resolves id e.exchange = false)
    (hs : sendsFor id e = true → InHand log e.thread id) : Tenure id m' (log ++ [e]) := by
  have hh : ∀ k, InHand (log ++ [e]) k id ↔ InHand log k id := fun k =>
    inHand_append_of_quiet hc hr
  refine ⟨by simpa only [hh] using c.sole, fun n hn => ?_, fun e' he hs' ha => ?_⟩
  · obtain ⟨u, hu, hheld⟩ := c.held n ((hh n).1 hn)
    refine ⟨u, hv.trans hu, { hheld with attempts := fun x hx a hxa => ?_ }⟩
    rcases eq_or_ne e.thread n with rfl | hne
    · rw [pastIn_append_self] at hx
      rcases List.mem_append.1 hx with hx | hx
      · exact hheld.attempts x hx a hxa
      · rw [List.mem_singleton.1 hx, hc] at hxa
        cases hxa
    · rw [pastIn_append_of_ne log hne] at hx
      exact hheld.attempts x hx a hxa
  · simp only [hh, hv]
    rcases List.mem_append.1 he with he | he
    · exact c.closed e' he hs' ha
    · -- who sends has the task in hand, and nobody else has
      obtain rfl := List.mem_singleton.1 he
      have hand := hs hs'
      obtain ⟨w, hw, hheld⟩ := c.held _ hand
      refine ⟨fun u hu => ?_, fun k hk => c.sole k _ hk hand⟩
      rw [← Option.some.inj (hw.symm.trans hu)]
      exact hheld.not_open

lemma Tenure.idle (hfree : ∀ k, ¬ InHand log k id)
    (hno : ∀ e ∈ log, sendsFor id e = true → accepts e.exchange = false)
    (hc : claim? id e.exchange = none) (hr : resolves id e.exchange = false)
    (hs : outcome? e.exchange = none) : Tenure id m' (log ++ [e]) := by
  have hh : ∀ k, ¬ InHand (log ++ [e]) k id := fun k hk =>
    hfree k ((inHand_append_of_quiet hc hr).1 hk)
  refine ⟨fun n k hn => absurd hn (hh n), fun n hn => absurd hn (hh n), fun e' he hs' ha => ?_⟩
  rcases List.mem_append.1 he with he | he
  · rw [hno e' he hs'] at ha
    cases ha
  · obtain rfl := List.mem_singleton.1 he
    simp [sendsFor, hs] at hs'

lemma Tenure.taken (c : Tenure id m log) (hu : m.get? id = some u) (ho : u.isOpen = true)
    {previous next : UInt32} (hp : pastIn log e.thread = [])
    (hx : e.exchange = ⟨.store (.mutate id (.claim previous next)),
      (Except.ok true : Except StoreError Bool)⟩)
    (hv : m'.get? id = some { u with attempts := next, sent := true }) :
    Tenure id m' (log ++ [e]) := by
  obtain ⟨hfree, hno⟩ := c.free_of_open hu ho
  have hh : ∀ k, InHand (log ++ [e]) k id → k = e.thread := by
    intro k hk
    by_contra hne
    exact hfree k ((inHand_append_of_ne (Ne.symm hne)).1 hk)
  refine ⟨fun n k hn hk => (hh n hn).trans (hh k hk).symm, fun n hn => ⟨_, hv, ?_⟩, ?_⟩
  · obtain rfl := hh n hn
    obtain ⟨-, hcancelled, hfailed⟩ := Task.isOpen_iff.1 ho
    refine ⟨rfl, hcancelled, hfailed, fun x hm a ha => ?_⟩
    rw [pastIn_append_self, hp, List.nil_append, List.mem_singleton] at hm
    rw [hm, hx] at ha
    simpa [claim?, Patch.claim] using ha
  · intro e' he hs ha
    rcases List.mem_append.1 he with he | he
    · rw [hno e' he hs] at ha
      cases ha
    · obtain rfl := List.mem_singleton.1 he
      simp [accepts, hx, outcome?] at ha

lemma Tenure.ended (c : Tenure id m log) (hand : InHand log e.thread id)
    (hr : resolves id e.exchange = true) (hs : outcome? e.exchange = none)
    (hv : ∀ v, m'.get? id = some v → ∀ x ∈ pastIn log e.thread, accepts x = false) :
    Tenure id m' (log ++ [e]) := by
  have hh : ∀ k, ¬ InHand (log ++ [e]) k id := by
    intro k hk
    rcases eq_or_ne e.thread k with rfl | hne
    · exact not_holds_of_resolves hr (inHand_append_self.1 hk)
    · exact hne (c.sole _ _ hand ((inHand_append_of_ne hne).1 hk))
  refine ⟨fun n k hn => absurd hn (hh n), fun n hn => absurd hn (hh n), fun e' he hs' ha => ?_⟩
  rcases List.mem_append.1 he with he | he
  · refine ⟨fun v hv' => ?_, fun k hk => absurd hk (hh k)⟩
    -- the message was accepted from the job that writes now, which then removes the task
    have hmine := (c.closed e' he hs' ha).2 _ hand
    rw [hv v hv' e'.exchange (mem_pastIn.2 ⟨e', he, hmine.symm, rfl⟩)] at ha
    cases ha
  · obtain rfl := List.mem_singleton.1 he
    simp [sendsFor, hs] at hs'

end Steps

/-- What is still there after the last write of its worker was not accepted. -/
lemma Ends.not_accepted {q : Queue} {t : Task} {l : List Exchange} {d : Attempt} {x : Exchange}
    {o : Option Task} (hd : Course (Attempt.Advance q t) (Attempt.begin t) l d)
    (he : Ends id o d x (some v)) : ∀ y ∈ l, accepts y = false := by
  have hdel : d.delivered = false := by
    generalize ho : some v = o' at he
    cases he with
    | removed | dropped => cases ho
    | putBack | gaveUp => rfl
  intro y hy
  by_contra hacc
  rw [(Attempt.delivered_iff hd).2 ⟨y, hy, by simpa using hacc⟩] at hdel
  cases hdel

lemma Tenure.changed (hx : Stock f x₀) (h : Run f.rules { shared := x₀ } s) {n : Nat} {j : Job}
    {q : Ask} {next : q.Answer → Work j.Result} {a : q.Answer} {m' : Memory} {x : Exchange}
    {o : Option Task} (c : Tenure id s.shared.store s.log)
    (asks : s.threads[n]? = some ⟨j, .ask q next⟩) (ch : Change f s n j id x o)
    (he : (⟨n, j, q, a, s.shared⟩ : Entry).exchange = x) (ho : m'.get? id = o) :
    Tenure id m' (s.log ++ [⟨n, j, q, a, s.shared⟩]) := by
  cases ch with
  | still hc hr =>
    exact c.still ho (he ▸ hc) (he ▸ hr) fun hsend => (inHand_of_sends h asks hsend).1
  | @born r sendAt hj hd hnone =>
    obtain ⟨i, duty⟩ := j
    obtain rfl : duty = .enqueue r := hj
    have hnew : ¬ Known x₀ s.log id := not_known_of_born h asks hd
    refine Tenure.idle (fun k hk => ?_) (fun e he hs => ?_) (he ▸ rfl) (he ▸ rfl) (he ▸ rfl)
    · obtain ⟨u, hu, -⟩ := c.held k hk
      exact hnew (known_of_stored hx h hu)
    · obtain ⟨e', he', -, hc⟩ := claimed_of_sends h he hs
      exact (hnew (known_of_claim hx h he' hc)).elim
  | joined _ _ _ hu hopen | withdrawn _ hu hopen =>
    obtain ⟨hfree, hno⟩ := c.free_of_open hu hopen
    exact Tenure.idle hfree hno (he ▸ rfl) (he ▸ rfl) (he ▸ rfl)
  | taken _ _ hp hu hopen => exact c.taken hu hopen hp he ho
  | @ended k t d _ _ hj ht hd hends =>
    subst ht
    obtain ⟨-, hr, hout, -⟩ := hends.record
    obtain ⟨htook, hpend⟩ := hends.state
    refine c.ended (holds_of_course hd htook hpend) (he ▸ hr) (he ▸ hout) fun v hv => ?_
    rw [ho.symm.trans hv] at hends
    exact hends.not_accepted hd

theorem tenure (hx : Stock f x₀) (h : Run f.rules { shared := x₀ } s) (id : TaskId) :
    Tenure id s.shared.store s.log := by
  refine run_view (P := fun m _ log => Tenure id m log) ?_ ?_ h
  · constructor <;> simp [InHand, not_holds_nil]
  · intro s n j q next a y hs asks ha c
    exact c.changed hx hs asks (change hs hx.bound asks ha id) rfl rfl

/-! ### From one state to a later one -/

/-- What holds of the store and the records in one state and is kept by each answer holds from then
on. -/
theorem view_since {P : Memory → List Entry → Prop} (h : Run f.rules { shared := x₀ } s)
    (h' : Run f.rules s t) (first : P s.shared.store s.log)
    (keep : ∀ {t : State} {n : Nat} {j : Job} {q : Ask} {next : q.Answer → Work j.Result}
        {a : q.Answer} {y : Shared},
      Run f.rules { shared := x₀ } t → Run f.rules s t →
      t.threads[n]? = some ⟨j, .ask q next⟩ → f.Answers j.queue t.shared q a y →
      P t.shared.store t.log → P y.store (t.log ++ [⟨n, j, q, a, t.shared⟩])) :
    P t.shared.store t.log := by
  induction h' with
  | refl => exact first
  | @snoc t u h' step ih =>
    cases step with
    | move hm =>
      obtain ⟨clock, rfl⟩ := hm
      exact ih
    | start hs =>
      obtain ⟨rfl, -⟩ := hs
      exact ih
    | answer asks ha => exact keep (h.trans h') h' asks ha ih

/-- What a later moment may find of a task: further attempts were counted, or none was, and then an
open task is as good as unclaimed and to be sent when it was. -/
def Later (u v : Task) : Prop :=
  u.attempts < v.attempts ∨
    v.attempts = u.attempts ∧ (u.isOpen = true → v.sent = false ∧ v.sendAt = u.sendAt)

lemma Later.le (h : Later u v) : u.attempts ≤ v.attempts := by
  rcases h with h | ⟨h, -⟩
  · exact UInt32.le_of_lt h
  · exact UInt32.le_of_eq h.symm

lemma Later.changed (hx : Stock f x₀) (h : Run f.rules { shared := x₀ } s) {n : Nat} {j : Job}
    {q : Ask} {next : q.Answer → Work j.Result} {x : Exchange}
    (asks : s.threads[n]? = some ⟨j, .ask q next⟩) (ch : Change f s n j id x (some v))
    (hk : Known x₀ s.log id) (hl : ∀ w, stored s id = some w → Later u w) : Later u v := by
  obtain ⟨i, duty⟩ := j
  generalize ho : some v = o at ch
  cases ch with
  | still => exact hl v ho.symm
  | born hj hd =>
    obtain rfl := hj
    exact (not_known_of_born h asks hd hk).elim
  | joined _ _ _ hw =>
    obtain rfl := Option.some.inj ho
    have hlw := hl _ hw
    exact hlw
  | withdrawn _ hw =>
    have hlw := hl _ hw
    split at ho
    · obtain rfl := Option.some.inj ho
      exact hlw
    · cases ho
  | @taken k t w hj ht hp hw hopen hat =>
    obtain rfl := Option.some.inj ho
    obtain rfl := hj
    have hnext := Attempt.lt_nextAttempt (due_of_process h hx.bound asks).2
    refine .inl (UInt32.lt_of_le_of_lt (hl w hw).le ?_)
    rw [hat]
    exact hnext
  | @ended k t d _ _ hj ht hd hends =>
    subst ht
    obtain ⟨htook, hpend⟩ := hends.state
    obtain ⟨w, hw, held⟩ := (tenure hx h t.id).held n (holds_of_course hd htook hpend)
    have hlw := hl w hw
    -- the task in hand bears the mark of its claim, so that an attempt was counted if it was open
    have hnot : ∀ v' : Task, v'.attempts = w.attempts → Later u v' := by
      intro v' hv'
      rcases hlw with hlt | ⟨heq, hopen⟩
      · exact .inl (hv' ▸ hlt)
      · refine .inr ⟨hv'.trans heq, fun hu => ?_⟩
        rw [held.sent] at hopen
        cases (hopen hu).1
    cases hends with
    | removed | dropped => cases ho
    | putBack _ _ _ hw' | gaveUp _ hw' =>
      obtain rfl := Option.some.inj ho
      obtain rfl := Option.some.inj (hw'.symm.trans hw)
      exact hnot _ rfl

/-- **Attempts are never taken back**, and as long as none is counted an open task keeps its
time. -/
theorem attempts_since (hx : Stock f x₀) (h : Run f.rules { shared := x₀ } s)
    (h' : Run f.rules s t) (hu : stored s id = some u) (hv : stored t id = some v) :
    Later u v := by
  have key : Known x₀ t.log id ∧ ∀ v, stored t id = some v → Later u v := by
    refine view_since (P := fun m log => Known x₀ log id ∧ ∀ v, m.get? id = some v → Later u v)
      h h' ⟨known_of_stored hx h hu, fun v hv => ?_⟩ ?_
    · obtain rfl : u = v := Option.some.inj (hu.symm.trans hv)
      exact .inr ⟨rfl, fun ho => ⟨(Task.isOpen_iff.1 ho).1, rfl⟩⟩
    · rintro t n j q next a y ht - asks ha ⟨hk, hl⟩
      refine ⟨hk.mono (List.prefix_append _ _), fun v hv => ?_⟩
      have ch := change ht hx.bound asks ha id
      rw [hv] at ch
      exact Later.changed hx ht asks ch hk hl
  exact key.2 v hv

/-- A task that a question has found open keeps its time as long as no attempt is counted. -/
lemma sendAt_since (hx : Stock f x₀) (h : Run f.rules { shared := x₀ } s) {e : Entry}
    (he : e ∈ s.log) (hu : e.before.store.get? id = some u) (ho : u.isOpen = true)
    (hv : stored s id = some v) (ha : v.attempts = u.attempts) : v.sendAt = u.sendAt := by
  obtain ⟨pre, post, hlog⟩ := List.append_of_mem he
  obtain ⟨t, next, y, ht, -, hs, asks, hans, hrun⟩ := h.split hlog
  rw [← hs] at hu hans
  have hrun' : Run f.rules t s := (Run.refl.snoc (.answer asks hans)).trans hrun
  rcases attempts_since hx ht hrun' hu hv with hlt | ⟨-, hkeep⟩
  · rw [ha] at hlt
    exact absurd hlt (UInt32.lt_irrefl _)
  · exact (hkeep ho).2

/-! ### Tasks that are over -/

/-- The task was there once. It is not open, if it is there at all, and in no hand. -/
structure Retired (x₀ : Shared) (id : TaskId) (m : Memory) (log : List Entry) : Prop where
  known : Known x₀ log id
  closed : ∀ u, m.get? id = some u → u.isOpen = false
  free : ∀ n, ¬ InHand log n id

/-- The record is of nothing that was done to the task or with it. -/
structure Apart (id : TaskId) (e : Entry) : Prop where
  claim : claim? id e.exchange = none
  resolve : resolves id e.exchange = false
  insert : inserts id e.exchange = false
  append : appended? id e.exchange = none
  withdraw : withdraws id e.exchange = false
  send : sendsFor id e = false

lemma Retired.changed (h : Run f.rules { shared := x₀ } s) {n : Nat} {j : Job} {q : Ask}
    {next : q.Answer → Work j.Result} {a : q.Answer} {x : Exchange} {o : Option Task}
    (r : Retired x₀ id s.shared.store s.log) (asks : s.threads[n]? = some ⟨j, .ask q next⟩)
    (ch : Change f s n j id x o) (he : (⟨n, j, q, a, s.shared⟩ : Entry).exchange = x) :
    o = stored s id ∧ Apart id ⟨n, j, q, a, s.shared⟩ := by
  obtain ⟨i, duty⟩ := j
  cases ch with
  | still hc hr hi ha hw =>
    refine ⟨rfl, he ▸ hc, he ▸ hr, he ▸ hi, he ▸ ha, he ▸ hw, ?_⟩
    by_contra hs
    exact r.free n (inHand_of_sends h asks (by simpa using hs)).1
  | born hj hd =>
    obtain rfl := hj
    exact (not_known_of_born h asks hd r.known).elim
  | joined _ _ _ hu ho | withdrawn _ hu ho | taken _ _ _ hu ho =>
    rw [r.closed _ hu] at ho
    cases ho
  | ended _ ht hd hends =>
    subst ht
    obtain ⟨htook, hpend⟩ := hends.state
    exact (r.free n (holds_of_course hd htook hpend)).elim

/-- A task that is over stays so, and is never touched again. -/
lemma Retired.since (hx : Stock f x₀) (h : Run f.rules { shared := x₀ } s)
    (r : Retired x₀ id s.shared.store s.log) (h' : Run f.rules s t) :
    Retired x₀ id t.shared.store t.log ∧ stored t id = stored s id ∧
      ∃ post, t.log = s.log ++ post ∧ ∀ e ∈ post, Apart id e := by
  refine view_since (P := fun m log => Retired x₀ id m log ∧ m.get? id = stored s id ∧
    ∃ post, log = s.log ++ post ∧ ∀ e ∈ post, Apart id e) h h' ⟨r, rfl, [], by simp⟩ ?_
  rintro t n j q next a y ht - asks ha ⟨r, hs, post, hlog, hpost⟩
  obtain ⟨ho, hap⟩ := r.changed ht asks (change ht hx.bound asks ha id) rfl
  have ho : y.store.get? id = t.shared.store.get? id := ho
  refine ⟨⟨r.known.mono (List.prefix_append _ _), ?_, fun k hk => ?_⟩, ho.trans hs,
    post ++ [⟨n, j, q, a, t.shared⟩], by rw [hlog, List.append_assoc], fun e he => ?_⟩
  · rw [ho]
    exact r.closed
  · exact r.free k ((inHand_append_of_quiet hap.claim hap.resolve).1 hk)
  · rcases List.mem_append.1 he with he | he
    · exact hpost e he
    · exact List.mem_singleton.1 he ▸ hap

/-- **A task that is over is never touched again**, whatever runs. -/
theorem Retired.stays (hx : Stock f x₀) (h : Run f.rules { shared := x₀ } s)
    (r : Retired x₀ id s.shared.store s.log) (h' : Run f.rules s t) :
    stored t id = stored s id ∧ ∃ post, t.log = s.log ++ post ∧ ∀ e ∈ post, Apart id e :=
  (r.since hx h h').2

end MailQueue.Fleet

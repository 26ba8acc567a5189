import MailQueue.Proofs.Fleet.Change
import MailQueue.Proofs.Medley.Basic
import MailQueue.Proofs.Turns

/-!
# Which transports are used

Queues of so many transports each, whatever else they are set to, share a store. The index of a
transport travels from a selection through the handling of a failure into the store, and from there
to the next tick of any of the queues.

* `InRange` says that a question and its answer name transports that there are, and
  `Attempt.InRange` that the state of an attempt does;
* `Ranged` is the invariant: what is stored, recorded and worked on names such transports only;
* `inTurn` follows the cursor of each queue through its selections;
* `Selecting` gathers what holds of the selections, and `transports_selected` shows it of each state
  that can be reached.
-/

namespace MailQueue

open Queue Interleaving Fleet

variable {n : Nat}

/-! ### The store -/

/-- A call writes only tasks with the property, if those that it changes have it. -/
def Store.Call.Keeps (P : Task → Prop) : Store.Call → Prop
  | .insert task => P task
  | .mutate _ p => ∀ t, P t → P (p.apply t)
  | .cancel _ => ∀ t, P t → P { t with cancelled := true }
  | _ => True

namespace Memory

variable {m : Memory} {P : Task → Prop}

lemma forall_put {task : Task} (h : ∀ t ∈ m.tasks, P t) (ht : P task) :
    ∀ t ∈ (m.put task).tasks, P t := by
  intro t hm
  obtain ⟨u, hu, rfl⟩ := List.mem_map.1 hm
  split
  · exact ht
  · exact h u hu

lemma forall_erase {id : TaskId} (h : ∀ t ∈ m.tasks, P t) : ∀ t ∈ (m.erase id).tasks, P t :=
  fun t hm => h t (List.mem_filter.1 hm).1

lemma mem_of_get? {id : TaskId} {t : Task} (h : m.get? id = some t) : t ∈ m.tasks :=
  List.mem_of_find?_eq_some h

theorem forall_answer {c : Store.Call} (hc : c.Keeps P) (h : ∀ t ∈ m.tasks, P t) :
    ∀ t ∈ (m.answer c).2.tasks, P t := by
  cases c with
  | due | look | find =>
    simp only [answer, whenBound]
    first | exact h | (split <;> exact h)
  | insert task =>
    simp only [answer, whenBound]
    split
    · split
      · exact h
      · exact List.forall_mem_cons.2 ⟨hc, h⟩
    · exact h
  | mutate id p =>
    simp only [answer, mutate]
    split
    · next t ht =>
      obtain ⟨u, hu, hp⟩ := Option.bind_eq_some_iff.1 ht
      unfold Patch.applied? at hp
      split at hp
      · obtain rfl := Option.some.inj hp
        exact forall_put h (hc u (h u (mem_of_get? hu)))
      · cases hp
    · exact h
  | delete id => exact forall_erase h
  | cancel id =>
    simp only [answer, whenBound, cancel]
    split
    · split
      · exact h
      · next t ht =>
        split
        · split
          · exact forall_put h (hc t (h t (mem_of_get? ht)))
          · exact forall_erase h
        · exact h
    · exact h

end Memory

/-! ### Transports that there are -/

/-- The cause names a transport that there is, or none. -/
def DeliveryError.InRange (n : Nat) : DeliveryError → Prop
  | transport index _ => index < n
  | noTransport _ => False
  | _ => True

/-- The event names transports that there are, in its task, its cause and what becomes of the
task. -/
def Event.InRange (n : Nat) : Event → Prop
  | sent task _ => task.transport < n
  | failed task error resolution =>
    task.transport < n ∧ error.InRange n ∧ match resolution with
      | .rescheduled _ transport => transport < n
      | .gaveUp => True

def Queue.Ask.InRange (n : Nat) : Ask → Prop
  | .store (.insert task) => task.transport < n
  | .store (.mutate _ p) => ∀ k, p.transport = some k → k < n
  | .pick stored => stored < n
  | .send index _ => index < n
  | .tell event => event.InRange n
  | _ => True

/-- The answer names transports that there are. -/
def Fleet.Given (n : Nat) : Exchange → Prop
  | ⟨.store (.due _), .ok due⟩ => ∀ t, .task t ∈ due → t.transport < n
  | ⟨.pick _, index⟩ => index < n
  | _ => True

lemma Queue.Ask.InRange.keeps {c : Store.Call} (h : Ask.InRange n (.store c)) :
    c.Keeps fun t => t.transport < n := by
  cases c with
  | insert => exact h
  | mutate id p =>
    intro t ht
    simp only [Patch.apply]
    rcases hp : p.transport with _ | k
    · exact ht
    · exact h k hp
  | cancel => exact fun t ht => ht
  | due | look | find | delete => trivial

/-! ### One attempt -/

namespace Attempt

variable {q : Queue} {t : Task} {l : List Fleet.Exchange} {d e : Attempt} {a : Ask} {x : a.Answer}

/-- The work goes on with transports that there are. -/
def InRange (n : Nat) : Attempt → Prop
  | sending index _ => index < n
  | timing index error => index < n ∧ error.InRange n
  | puttingBack _ transport error => transport < n ∧ error.InRange n
  | marking error | dropping error => error.InRange n
  | telling event _ => event.InRange n
  | _ => True

lemma inRange_begin : (begin t).InRange n := by
  unfold begin
  split <;> trivial

lemma inRange_after (ht : t.transport < n) {index : Nat} (hi : index < n)
    {r : Except DeliveryError SendReport} (hr : ∀ error, r = .error error → error.InRange n) :
    (after q t index r).InRange n := by
  rcases after_eq (q := q) (t := t) index r with
    ⟨error, rfl, he | he | he⟩ | ⟨report, rfl, he | he⟩ <;> rw [he]
  all_goals first | exact ht | exact ⟨hi, hr _ rfl⟩ | exact hr _ rfl | trivial

lemma inRange_chosen (hq : q.pool.size = n) (ht : t.transport < n) {index : Nat} (hi : index < n) :
    (chosen q t index).InRange n := by
  unfold chosen
  split
  · next hnone =>
    have hle := List.getElem?_eq_none_iff.1 hnone
    simp only [TransportPool.size] at hq
    omega
  · split
    · exact inRange_after ht hi fun error he => by cases he; trivial
    · exact hi

lemma inRange_verdict {index : Nat} (hi : index < n) (o : SendOutcome) (error : DeliveryError)
    (he : verdict index o = .error error) : error.InRange n := by
  unfold verdict at he
  split at he
  · split at he <;> cases he
    trivial
  · cases he
    exact hi
  · cases he
    trivial

/-- An answer that names a transport that there is leads to no other. -/
lemma Advance.inRange (hq : q.pool.size = n) (ht : t.transport < n) (h : Advance q t d a x e)
    (hd : d.InRange n) (hx : Given n ⟨a, x⟩) : e.InRange n := by
  cases h with
  | lost | claimed | told => trivial
  | picked index => exact inRange_chosen hq ht hx
  | sent index message o => exact inRange_after ht hd (inRange_verdict hd o)
  | removed => exact ht
  | marked | dropped => exact ⟨ht, hd, trivial⟩
  | timed index error now =>
    have hlt : index < q.pool.size := by rw [hq]; exact hd.1
    exact ⟨hq ▸ TransportPool.afterFailure_lt hlt, hd.2⟩
  | putBack => exact ⟨ht, hd.2, hd.1⟩

lemma inRange_of_course (hq : q.pool.size = n) (ht : t.transport < n)
    (h : Course (Advance q t) (begin t) l d) (hl : ∀ y ∈ l, Given n y) : d.InRange n := by
  induction h with
  | refl => exact inRange_begin
  | snoc h step ih =>
    exact step.inRange hq ht (ih fun y hy => hl y (List.mem_append_left _ hy)) (hl _ (by simp))

lemma Advance.ask_inRange (ht : t.transport < n) (h : Advance q t d a x e) (hd : d.InRange n) :
    a.InRange n := by
  cases h with
  | lost | claimed | marked => exact fun k hk => by cases hk
  | picked => exact ht
  | sent | told => exact hd
  | putBack => exact fun k hk => by cases hk; exact hd.1
  | removed | dropped | timed => trivial

end Attempt

/-- A request opens a task at the first transport, and joins a task without touching its
transport. -/
lemma Intake.Advance.ask_inRange {q : Queue} {r : Request} {l : List Fleet.Exchange} {d e : Intake}
    {a : Ask} {x : a.Answer} (hn : 0 < n) (hd : Course (Intake.Advance q r) (Intake.begin q r) l d)
    (h : Intake.Advance q r d a x e) : a.InRange n := by
  cases h with
  | dated | looked | named => trivial
  | joined => exact fun k hk => by cases hk
  | stored task =>
    obtain ⟨id, sendAt, rfl⟩ := Intake.eq_fresh_of_storing hd
    exact hn

namespace Medley

variable {queue : Nat → Queue} {x₀ : Shared} {s t : State}

/-! ### Everything is in range -/

/-- What is stored, recorded and worked on names transports that there are. -/
structure Ranged (n : Nat) (s : State) : Prop where
  stored : ∀ t ∈ s.shared.store.tasks, t.transport < n
  log : ∀ e ∈ s.log, e.ask.InRange n ∧ Given n e.exchange
  held : ∀ (m i k : Nat) (t : Task) (w : Work TaskOutcome),
    s.threads[m]? = some ⟨⟨i, .process k t⟩, w⟩ → t.transport < n

lemma Ranged.ask (hn : 0 < n) (hq : ∀ i, (queue i).pool.size = n)
    (h : Run (rules queue) { shared := x₀ } s) (hs : Ranged n s) {m : Nat} {j : Job} {q : Ask}
    {next : q.Answer → Work j.Result} (asks : s.threads[m]? = some ⟨j, .ask q next⟩)
    (a : q.Answer) : q.InRange n := by
  have hpath := h.path asks
  obtain ⟨i, duty⟩ := j
  cases duty with
  | enqueue r =>
    obtain ⟨d, hd, hw⟩ := Intake.course hpath
    obtain ⟨e, step, -⟩ := Intake.follow hw.symm a
    exact step.ask_inRange hn hd
  | cancel id =>
    rcases cancelling hpath with ⟨-, hp⟩ | ⟨_, _, -, hp, -⟩ <;> cases hp
    trivial
  | list =>
    rcases listing hpath with ⟨-, hp⟩ | ⟨now, -, hp⟩ | ⟨o, hp, -, -⟩ <;> cases hp <;> trivial
  | process k t =>
    have ht := hs.held m i k t _ asks
    obtain ⟨d, hd, hw⟩ := Attempt.course hpath
    obtain ⟨e, step, -⟩ := Attempt.follow hw.symm a
    refine step.ask_inRange ht (Attempt.inRange_of_course (hq i) ht hd fun y hy => ?_)
    obtain ⟨e, he, -, rfl⟩ := mem_pastIn.1 hy
    exact (hs.log e he).2

/-- The answer to such a question names such transports, and leaves them in the store. -/
lemma given_of_answers {q₀ : Queue} (hq : q₀.pool.size = n) {i : Nat} {x y : Shared} {q : Ask}
    {a : q.Answer} (ha : (ofQueue q₀).Answers i x q a y) (hask : q.InRange n)
    (hx : ∀ t ∈ x.store.tasks, t.transport < n) :
    Given n ⟨q, a⟩ ∧ ∀ t ∈ y.store.tasks, t.transport < n := by
  cases ha with
  | now | freshId | send | tell => exact ⟨trivial, hx⟩
  | pick stored =>
    have hlt : stored < q₀.pool.size := by rw [hq]; exact hask
    exact ⟨hq ▸ TransportPool.select_lt hlt, hx⟩
  | fault c e =>
    refine ⟨?_, hx⟩
    cases c <;> trivial
  | @store c a ha =>
    refine ⟨?_, Memory.forall_answer hask.keeps hx⟩
    cases c with
    | due now =>
      rcases a with e | due
      · trivial
      · intro t ht
        obtain ⟨b, -, hmem, -⟩ := Memory.mem_of_due ha ht
        exact hx t hmem
    | look | find | insert | mutate | delete | cancel => trivial

lemma Ranged.takenUp (h : Run (rules queue) { shared := x₀ } s) (hs : Ranged n s) {i k : Nat}
    {t : Task} {f : Fleet} (ht : f.TakesUp s i k t) : t.transport < n := by
  obtain ⟨now, due, htick, hdue, -⟩ := ht
  rcases listing (h.path htick) with ⟨-, hp⟩ | ⟨_, -, hp⟩ | ⟨o, hp, -, hl⟩
  · cases hp
  · cases hp
  · have hpast := hl now due (Program.done.inj hp).symm
    have hm : ⟨.store (.due now), .ok due⟩ ∈ s.past k := by rw [hpast]; simp
    obtain ⟨e, he, -, hx⟩ := mem_pastIn.1 hm
    have hgiven := (hs.log e he).2
    rw [hx] at hgiven
    exact hgiven t (List.mem_of_getElem? hdue)

/-- **No run leaves the range.** -/
theorem ranged (hn : 0 < n) (hq : ∀ i, (queue i).pool.size = n)
    (hx : ∀ t ∈ x₀.store.tasks, t.transport < n) (h : Run (rules queue) { shared := x₀ } s) :
    Ranged n s := by
  refine h.keeps ⟨hx, by simp, by simp⟩ ?_
  intro s t hrun hs step
  cases step with
  | move hm =>
    obtain ⟨clock, rfl⟩ := hm
    exact ⟨hs.stored, hs.log, hs.held⟩
  | @start j x hstart =>
    obtain ⟨rfl, hstart⟩ := hstart
    refine ⟨hs.stored, hs.log, fun m i k t w hm => ?_⟩
    rcases getElem?_started hm with ⟨-, hm⟩ | ⟨-, hj⟩
    · exact hs.held m i k t w hm
    · obtain ⟨rfl, -⟩ := Thread.mk.inj hj
      exact hs.takenUp hrun hstart
  | @answer m j q next a x asks ha =>
    have hask := hs.ask hn hq hrun asks a
    obtain ⟨hgiven, hstored⟩ := given_of_answers (hq j.queue) ha hask hs.stored
    refine ⟨hstored, fun e he => ?_, fun m' i k t w hm => ?_⟩
    · rcases List.mem_append.1 he with he | he
      · exact hs.log e he
      · obtain rfl := List.mem_singleton.1 he
        exact ⟨hask, hgiven⟩
    · obtain ⟨w', hw'⟩ := job_of_answered asks hm
      exact hs.held m' i k t w' hw'

/-! ### The turns of each queue -/

/-- The transport that the task of a queue named and the one that was selected. -/
def selection? (k : Nat) (e : Entry) : Option (Nat × Nat) :=
  match e with
  | ⟨_, j, .pick stored, index, _⟩ => if j.queue = k then some (stored, index) else none
  | _ => none

def selections (log : List Entry) (k : Nat) : List (Nat × Nat) := log.filterMap (selection? k)

/-- What a queue selects follows from what its tasks name, and so does its cursor. -/
structure InTurn (queue : Nat → Queue) (s : State) : Prop where
  cursor : ∀ k, s.shared.cursor k =
    (queue k).pool.cursorAfter 0 ((selections s.log k).map Prod.fst)
  selected : ∀ k, (selections s.log k).map Prod.snd =
    (queue k).pool.selections 0 ((selections s.log k).map Prod.fst)

lemma selection?_of_ne {e : Entry} {k : Nat} (h : e.job.queue ≠ k) : selection? k e = none := by
  obtain ⟨m, j, q, a, x⟩ := e
  cases q with
  | pick stored => exact if_neg h
  | _ => rfl

lemma InTurn.answer {m : Nat} {j : Job} {q : Ask} {next : q.Answer → Work j.Result} {a : q.Answer}
    {y : Shared} (hs : InTurn queue s)
    (ha : (ofQueue (queue j.queue)).Answers j.queue s.shared q a y) :
    InTurn queue (s.answered m j q a next y) := by
  have hlog (k : Nat) : selections (s.answered m j q a next y).log k =
      selections s.log k ++ (selection? k ⟨m, j, q, a, s.shared⟩).toList := by
    simp only [selections, State.answered, List.filterMap_append]
    rfl
  have hquiet (hy : y.cursor = s.shared.cursor)
      (hnone : ∀ k, selection? k ⟨m, j, q, a, s.shared⟩ = none) :
      InTurn queue (s.answered m j q a next y) := by
    refine ⟨fun k => ?_, fun k => ?_⟩ <;> rw [hlog, hnone, Option.toList_none, List.append_nil]
    · rw [State.answered, hy]
      exact hs.cursor k
    · exact hs.selected k
  cases ha with
  | now | freshId | store | fault | send | tell => exact hquiet rfl fun k => rfl
  | pick stored =>
    refine ⟨fun k => ?_, fun k => ?_⟩ <;> rw [hlog] <;> by_cases hk : j.queue = k
    · subst hk
      simp [State.answered, selection?, TransportPool.cursorAfter_append_singleton, hs.cursor,
        ofQueue]
    · rw [selection?_of_ne hk, Option.toList_none, List.append_nil, State.answered]
      simp only [Function.update_of_ne (Ne.symm hk)]
      exact hs.cursor k
    · subst hk
      simp [selection?, TransportPool.selections_append_singleton, ← hs.selected, hs.cursor,
        ofQueue]
    · rw [selection?_of_ne hk, Option.toList_none, List.append_nil]
      exact hs.selected k

/-- **Each queue goes through its pool by itself**, whoever else selects in between. -/
theorem inTurn (hx : ∀ k, x₀.cursor k = 0) (h : Run (rules queue) { shared := x₀ } s) :
    InTurn queue s := by
  refine h.keeps ⟨hx, fun k => rfl⟩ ?_
  intro s t hrun hs step
  cases step with
  | move hm =>
    obtain ⟨clock, rfl⟩ := hm
    exact ⟨hs.cursor, hs.selected⟩
  | start hstart =>
    obtain ⟨rfl, -⟩ := hstart
    exact ⟨hs.cursor, hs.selected⟩
  | answer asks ha => exact hs.answer ha

/-! ### All selections -/

/-- What holds, at any moment, of the selections of queues over `n` transports each. -/
structure Selecting (queue : Nat → Queue) (n : Nat) (s : State) : Prop where
  stored : ∀ t ∈ s.shared.store.tasks, t.transport < n
  /-- Whatever was asked and answered names transports that there are. -/
  asked : ∀ e ∈ s.log, e.ask.InRange n ∧ Given n e.exchange
  /-- The transport that was selected for an attempt is there. -/
  found : ∀ e ∈ s.log, ∀ stored index, e.exchange = ⟨.pick stored, index⟩ →
    ∃ transport, (queue e.job.queue).pool.get? index = some transport
  /-- No listener is told that a transport is missing. -/
  told : ∀ e ∈ s.log, ∀ task index resolution,
    e.ask ≠ .tell (.failed task (.noTransport index) resolution)
  /-- What a queue selects is what its pool selects by itself. -/
  own : ∀ k, (selections s.log k).map Prod.snd =
    (queue k).pool.selections 0 ((selections s.log k).map Prod.fst)
  /-- A balancer selects one transport after the other, whatever the tasks name. -/
  inTurn : ∀ k, (queue k).pool.strategy = .balancer → ∀ named i index,
    ((queue k).pool.selections 0 named)[i]? = some index → index = (i + 1) % n
  /-- Of so many selections in a row each transport has the same share. -/
  fair : ∀ k, (queue k).pool.strategy = .balancer → ∀ named,
    Fair n ((queue k).pool.selections 0 named)

/-- **Each attempt finds a transport, and a balancer gives all of them the same share**, whatever
else the queues over a store are set to. -/
theorem transports_selected (hn : 0 < n) (hq : ∀ i, (queue i).pool.size = n)
    (h : Reachable queue s) : Selecting queue n s := by
  obtain ⟨binding, clock, hr⟩ := h
  have hranged : Ranged n s := ranged hn hq (by simp [first]) hr
  have hturns : InTurn queue s := inTurn (fun k => rfl) hr
  have hrow (k : Nat) (hs : (queue k).pool.strategy = .balancer) (named : List Nat) :
      (queue k).pool.selections 0 named =
        (List.range named.length).map fun i => (i + 1) % n := by
    rw [TransportPool.selections_of_balancer hs (by rw [hq]; exact hn), hq]
  refine ⟨hranged.stored, hranged.log, fun e he stored index hx => ?_,
    fun e he task index resolution ht => ?_, hturns.selected, fun k hs named i index hi => ?_,
    fun k hs named => ?_⟩
  · have hlt := (hranged.log e he).2
    rw [hx] at hlt
    refine ⟨_, List.getElem?_eq_getElem (?_ : index < (queue e.job.queue).pool.size)⟩
    rw [hq]
    exact hlt
  · have hask := (hranged.log e he).1
    rw [ht] at hask
    exact hask.2.1
  · rw [hrow k hs, List.getElem?_map] at hi
    obtain ⟨j, hj, rfl⟩ := Option.map_eq_some_iff.1 hi
    obtain ⟨hlt, rfl⟩ := List.getElem?_eq_some_iff.1 hj
    rw [List.getElem_range]
  · rw [hrow k hs]
    exact fair_of_turns n _

/-- The first queue balances two transports, the others keep to one until it fails. -/
def mixed : Fleet where
  config := {}
  queue i :=
    { Queue.wire {} [] none with
      pool := .new [⟨"one", none⟩, ⟨"two", none⟩] (if i = 0 then .balancer else .backup) 1 }
  shared _ := rfl

/-- Two attempts of the first queue side by side, the later of which selects first and fails. The
second queue tries that task again, and fails too. -/
def crossed : List Move :=
  [.start 0 (.enqueue (note "a@x" "one")), .name 0 (.ofNat 1), .reply 0,
    .start 0 .list, .reply 1, .reply 1, .takeUp 1, .reply 2,
    .start 1 (.enqueue (note "b@x" "two")), .name 3 (.ofNat 2), .reply 3,
    .start 0 .list, .reply 4, .reply 4, .takeUp 4, .reply 5, .reply 5, .reply 2,
    .outcome 2 (.report { accepted := ["a@x"] }), .reply 2, .reply 2,
    .outcome 5 (.error (.connection "down")), .reply 5, .reply 5, .reply 5,
    .clock hour, .start 1 .list, .reply 6, .reply 6, .takeUp 6, .reply 7, .reply 7,
    .outcome 7 (.error (.connection "down")), .reply 7, .reply 7]

theorem transports_selected_crossed : ∃ s, 0 < 2 ∧ (∀ i, (mixed.queue i).pool.size = 2) ∧
    Reachable mixed.queue s ∧ s.shared.store.tasks.map Task.transport = [0] ∧
    (List.range 2).map (selections s.log) = [[(0, 1), (0, 0)], [(1, 1)]] ∧
    Selecting mixed.queue 2 s := by
  have key : ((mixed.playAll { shared := mixed.first [] .epoch } crossed).any fun s =>
      s.shared.store.tasks.map Task.transport == [0] &&
        (List.range 2).map (selections s.log) == [[(0, 1), (0, 0)], [(1, 1)]]) = true := by
    decide +kernel
  obtain ⟨s, hs, hv⟩ := (Option.any_eq_true ..).1 key
  obtain ⟨htasks, hpicks⟩ := (Bool.and_eq_true ..).mp hv
  have hsize : ∀ i, (mixed.queue i).pool.size = 2 := fun i => rfl
  have hreach := reachable_of_fleet (reachable_of_playAll hs)
  exact ⟨s, by decide, hsize, hreach, eq_of_beq htasks, eq_of_beq hpicks,
    transports_selected (by decide) hsize hreach⟩

end Medley

end MailQueue

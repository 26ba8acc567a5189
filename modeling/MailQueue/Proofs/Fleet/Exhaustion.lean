import MailQueue.Proofs.Fleet.Failure
import MailQueue.Proofs.Fleet.Rotation

/-!
# A task that always fails

A task of which no message is ever accepted is tried as often as the settings allow and then given
up. Each attempt goes through the transport whose turn it is by the number of the attempt, all but
the last put the task back, and after the last it is not listed again.

* `Faultless` says that no call of the store has failed;
* `Attempted` is what is known of one attempt: `PutBack` and `GivenUp` are how it ends;
* `exhausted` shows it of each attempt, whatever ticks run and whatever else is in the store.
-/

namespace MailQueue.Fleet

open Queue Interleaving

variable {f : Fleet} {size : Nat} {x₀ : Shared} {tasks : List Task} {s s' : State} {id : TaskId}
  {t u v : Task} {n : Nat}

/-! ### Stores that do not fail -/

/-- If the store was called, the call has not failed: the answer is one that the store may give as it
was found. -/
def Answered (e : Entry) : Prop :=
  ∀ c a, e.exchange = ⟨.store c, a⟩ → e.before.store.Allows c a

def Faultless (log : List Entry) : Prop := ∀ e ∈ log, Answered e

def leftBy (m : Memory) : Ask → Memory
  | .store c => (m.answer c).2
  | _ => m

/-- The store as the question of a record has left it, if it did not fail. -/
def storeAfter (e : Entry) : Memory := leftBy e.before.store e.ask

lemma get?_leftBy {b : Binding} {x y : Shared} {i : Nat} {q : Ask} {a : q.Answer}
    (hb : x.store.binding = some b) (ha : f.Answers i x q a y)
    (hf : ∀ c a', (⟨q, a⟩ : Exchange) = ⟨.store c, a'⟩ → x.store.Allows c a') :
    (leftBy x.store q).get? id = y.store.get? id := by
  cases ha with
  | fault c e =>
    -- a failure that the store itself would answer with changes nothing either
    show (x.store.answer c).2.get? id = _
    rw [Memory.get?_of_allows hb (hf c _ rfl)]
    exact effect_failed c e _
  | _ => rfl

/-! ### How an attempt ends -/

/-- The `m`-th attempt, of the job of this number, has put its task back: the task is open again,
with so many attempts and in the turn of the next transport, and the listeners were told of that
alone. -/
def PutBack (f : Fleet) (size : Nat) (s : State) (n : Nat) (t : Task) (m : Nat) : Prop :=
  ∃ error retryAt pre e post u,
    (s.past n).filterMap told? =
      [.failed (claimed t) error (.rescheduled retryAt (f.turn size m))] ∧
    s.log = pre ++ e :: post ∧ e.thread = n ∧
    e.exchange = ⟨.store (.mutate t.id (.reschedule retryAt (f.turn size m))), .ok true⟩ ∧
    (storeAfter e).get? t.id = some u ∧ u.isOpen = true ∧ u.attempts.toNat = m ∧
    u.sendAt = retryAt ∧ u.transport = f.turn size m

/-- What is left of a task that was given up with so many attempts. -/
def LeftGivenUp (f : Fleet) (m : Nat) (o : Option Task) : Prop :=
  if f.config.keepHistory then
    ∃ u, o = some u ∧ u.failed = true ∧ u.sent = false ∧ u.attempts.toNat = m
  else o = none

/-- The `m`-th attempt, of the job of this number, has given its task up: the task is marked or
removed and stays so, the listeners were told of that alone, and whatever runs from then on does
not list the task. -/
def GivenUp (f : Fleet) (s : State) (n : Nat) (t : Task) (m : Nat) : Prop :=
  ∃ error pre e post,
    (s.past n).filterMap told? = [.failed (claimed t) error .gaveUp] ∧
    s.log = pre ++ e :: post ∧ e.thread = n ∧ resolves t.id e.exchange = true ∧
    LeftGivenUp f m ((storeAfter e).get? t.id) ∧
    ∀ s', Run f.rules s s' → stored s' t.id = (storeAfter e).get? t.id ∧
      ∀ e' ∈ s'.log.drop (pre.length + 1), lists t.id e'.exchange = false

/-- What is known of the `m`-th attempt at a task, made by the job of this number with so much work
left. -/
structure Attempted (f : Fleet) (size : Nat) (s : State) (n : Nat) (t : Task)
    (w : Work TaskOutcome) (m : Nat) : Prop where
  pos : 1 ≤ m
  le : m ≤ f.config.maxAttempts.toNat
  /-- The attempt is counted in what is sent and told. -/
  counts : (claimed t).attempts.toNat = m
  /-- It is the only one of its job. -/
  sole : (s.past n).filterMap (claim? t.id) = [(claimed t).attempts]
  picks : ∀ stored index, ⟨.pick stored, index⟩ ∈ s.past n → index = f.turn size (m - 1)
  sends : ∀ index message o, ⟨.send index message, o⟩ ∈ s.past n → index = f.turn size (m - 1)
  putBack : ∀ o, w = .done o → m < f.config.maxAttempts.toNat →
    o = .rescheduled ∧ PutBack f size s n t m
  gaveUp : ∀ o, w = .done o → m = f.config.maxAttempts.toNat → o = .failed ∧ GivenUp f s n t m

/-! ### The last write of an attempt -/

/-- The last write of an attempt by the job of this number, answered by the store. -/
structure LastWrite (f : Fleet) (s : State) (n : Nat) (t : Task) (c : Store.Call)
    (answer : c.Answer) (pre : List Entry) (e : Entry) (post : List Entry) (u : Task) : Prop where
  log : s.log = pre ++ e :: post
  thread : e.thread = n
  exchange : e.exchange = ⟨.store c, answer⟩
  answered : e.before.store.Allows c answer
  hand : InHand pre n t.id
  /-- The task was found as the attempt had claimed it. -/
  found : e.before.store.get? t.id = some u
  cancelled : u.cancelled = false
  failed : u.failed = false
  attempts : u.attempts = nextAttempt t.attempts
  left : (storeAfter e).get? t.id = c.effect f.config.keepHistory t.id answer (some u)

section Write

variable {i : Nat} {l : List Exchange} {c : Store.Call} {answer : c.Answer} {d : Attempt}
  {pre post : List Entry} {e : Entry}

lemma lastWrite_of_past (hx : Stock f x₀) (h : Run f.rules { shared := x₀ } s)
    (hfl : Faultless s.log) {event : Event}
    (hl : s.past n = l ++ [⟨.store c, answer⟩] ++ [⟨.tell event, ()⟩])
    (hd : Course (Attempt.Advance (f.queue i) t) (Attempt.begin t) l d) (ht : d.took = true)
    (hp : d.pending = true) : ∃ pre e post u, LastWrite f s n t c answer pre e post u := by
  obtain ⟨pre', e', post', hlog', -, -, hpast', -⟩ := exists_last hl
  obtain ⟨pre, e, post, rfl, rfl, hex, rfl, -⟩ := exists_last hpast'
  have hlog : s.log = pre ++ e :: (post ++ e' :: post') := by rw [hlog']; simp
  obtain ⟨p, -, -, hr, rfl, hs, -⟩ := h.split hlog
  have hand : InHand p.log e.thread t.id := holds_of_course hd ht hp
  obtain ⟨u, hu, held⟩ := (tenure hx hr t.id).held _ hand
  have hb := bound hr hx.bound
  rw [hs] at hu hb
  have hans : e.before.store.Allows c answer := hfl e (by rw [hlog]; simp) c answer hex
  refine ⟨p.log, e, _, u, hlog, rfl, hex, hans, hand, hu, held.cancelled, held.failed,
    held.attempts_eq hd ht, ?_⟩
  have hask : e.ask = .store c := congrArg Sigma.fst hex
  rw [storeAfter, hask, ← hu]
  exact Memory.get?_of_allows hb hans t.id

lemma LastWrite.answer_eq {p : Patch} {a : Except StoreError Bool}
    (w : LastWrite f s n t (.mutate t.id p) a pre e post u) (hp : p.guard = none) :
    a = .ok true ∧ (storeAfter e).get? t.id = some (p.apply u) := by
  have hg : p.guardHolds u = true := by rw [Patch.guardHolds, hp]
  have ha : a = .ok true := by
    refine (show a = _ from w.answered).trans ?_
    show Except.ok (e.before.store.mutate t.id p).1 = _
    rw [Memory.mutate_of_guardHolds w.found hg]
  refine ⟨ha, ?_⟩
  rw [w.left, ha]
  exact if_pos rfl

lemma LastWrite.over (w : LastWrite f s n t c answer pre e post u) (hx : Stock f x₀)
    (hdist : x₀.store.Distinct) (h : Run f.rules { shared := x₀ } s)
    (hr : resolves t.id e.exchange = true)
    (hc : ∀ u, (storeAfter e).get? t.id = some u → u.isOpen = false) (hs' : Run f.rules s s') :
    stored s' t.id = (storeAfter e).get? t.id ∧
      ∀ e' ∈ s'.log.drop (pre.length + 1), lists t.id e'.exchange = false := by
  obtain ⟨p, next, y, hp, hpre, hs, asks, ha, hrun⟩ := h.split w.log
  have hand := w.hand
  rw [← w.thread, ← hpre] at hand
  have hb := bound hp hx.bound
  rw [hs] at hb
  have hy : (storeAfter e).get? t.id = y.store.get? t.id := by
    refine get?_leftBy hb ha fun c' a' hx' => ?_
    have hx' := hx'.symm.trans w.exchange
    cases hx'
    exact w.answered
  have hlast := State.log_answered hs next y
  have hr' : Retired x₀ t.id y.store (p.answered e.thread e.job e.ask e.answer next y).log :=
    retired_of_resolves hx hp hand hr fun u hu => hc u (hy.trans hu)
  have hafter : Run f.rules { shared := x₀ } (p.answered e.thread e.job e.ask e.answer next y) :=
    hp.snoc (.answer asks (hs ▸ ha))
  refine ⟨((hr'.stays hx hafter (hrun.trans hs')).1).trans hy.symm, ?_⟩
  have hun := hr'.unlisted hx hdist hafter (hrun.trans hs')
  rwa [hlast, hpre, List.length_append, List.length_singleton] at hun

lemma putBack_of_course (hb : f.Built size) (hx : Stock f x₀)
    (h : Run f.rules { shared := x₀ } s) (hfl : Faultless s.log)
    (hd : Course (Attempt.Advance (f.queue i) t) (Attempt.begin t) (s.past n)
      (.finished .rescheduled)) {failures : Nat} (hturn : t.transport = f.turn size failures)
    (hcount : (claimed t).attempts.toNat = failures + 1) :
    PutBack f size s n t (failures + 1) := by
  obtain ⟨l, event, htell, hl⟩ := Attempt.told_of_course hd (by simp)
  have hevents := Attempt.events_of_course htell
  obtain ⟨l', retryAt, transport, error, answer, hput, rfl, rfl⟩ :=
    Attempt.put_back_of_telling htell
  obtain ⟨index, hpick, rfl⟩ := Attempt.rotated_of_course hput
  have hindex : index = t.transport := hb.picked h (n := n) (by rw [hl]; simp [hpick])
  rw [hindex, hturn, hb.afterFailure i hcount] at hl hevents hput
  obtain ⟨pre, e, post, u, w⟩ := lastWrite_of_past hx h hfl hl hput rfl rfl
  obtain ⟨rfl, hleft⟩ := w.answer_eq rfl
  refine ⟨error, retryAt, pre, e, post, _, by rw [hl, hevents], w.log, w.thread, w.exchange,
    hleft, ?_, ?_, rfl, rfl⟩
  · simp [Patch.apply, Patch.reschedule, Task.isOpen, w.cancelled, w.failed]
  · show u.attempts.toNat = _
    rw [w.attempts]
    exact hcount

lemma givenUp_of_course (hx : Stock f x₀) (hdist : x₀.store.Distinct)
    (h : Run f.rules { shared := x₀ } s) (hfl : Faultless s.log)
    (hd : Course (Attempt.Advance (f.queue i) t) (Attempt.begin t) (s.past n)
      (.finished .failed)) {m : Nat} (hcount : (claimed t).attempts.toNat = m) :
    GivenUp f s n t m := by
  obtain ⟨l, event, htell, hl⟩ := Attempt.told_of_course hd (by simp)
  have hevents := Attempt.events_of_course htell
  obtain ⟨l', error, rfl, hwrite⟩ := Attempt.given_up_of_telling htell
  rw [f.shared i] at hwrite
  rcases hwrite with ⟨hkeep, hmark, answer, rfl⟩ | ⟨hkeep, hdrop, answer, rfl⟩
  · obtain ⟨pre, e, post, u, w⟩ := lastWrite_of_past hx h hfl hl hmark rfl rfl
    obtain ⟨rfl, hleft⟩ := w.answer_eq rfl
    have hr : resolves t.id e.exchange = true := by
      rw [w.exchange]
      simp [resolves, Patch.fail]
    refine ⟨error, pre, e, post, by rw [hl, hevents], w.log, w.thread, hr, ?_, fun s' hs' =>
      w.over hx hdist h hr (fun v hv => ?_) hs'⟩
    · rw [LeftGivenUp, if_pos hkeep]
      refine ⟨_, hleft, rfl, rfl, ?_⟩
      show u.attempts.toNat = _
      rw [w.attempts]
      exact hcount
    · rw [hleft] at hv
      rw [← Option.some.inj hv]
      simp [Patch.apply, Patch.fail, Task.isOpen]
  · obtain ⟨pre, e, post, u, w⟩ := lastWrite_of_past hx h hfl hl hdrop rfl rfl
    obtain rfl : answer = .ok _ := w.answered
    have hr : resolves t.id e.exchange = true := by
      rw [w.exchange]
      exact beq_self_eq_true t.id
    have hleft : (storeAfter e).get? t.id = none := w.left.trans (if_pos rfl)
    refine ⟨error, pre, e, post, by rw [hl, hevents], w.log, w.thread, hr, ?_, fun s' hs' =>
      w.over hx hdist h hr (fun v hv => ?_) hs'⟩
    · rw [LeftGivenUp, if_neg (by simp [hkeep])]
      exact hleft
    · cases hleft.symm.trans hv

end Write

/-! ### All attempts -/

/-- How it goes with a task of which no message is ever accepted. -/
structure Exhausted (f : Fleet) (size : Nat) (s : State) (id : TaskId) : Prop where
  /-- The claims have written the attempts 1, 2, 3 and so on. -/
  counted : (tries s.log id).map UInt32.toNat = List.range' 1 (tries s.log id).length
  bounded : (tries s.log id).length ≤ f.config.maxAttempts.toNat
  attempt : ∀ n i tick t w a, s.threads[n]? = some ⟨⟨i, .process tick t⟩, w⟩ →
    (∃ x ∈ s.past n, claim? id x = some a) → t.id = id ∧ Attempted f size s n t w a.toNat

lemma finished_of_done {q : Queue} {d : Attempt} {o : TaskOutcome} (h : .done o = d.work q t) :
    d = .finished o := by
  cases d with
  | finished o' => rw [Program.done.inj h]
  | _ => cases h

/-- A job of which no message is accepted does not end as if one was. -/
lemma not_accepts_of_sends (h : Run f.rules { shared := x₀ } s) {i k : Nat} {w : Work TaskOutcome}
    (hn : s.threads[n]? = some ⟨⟨i, .process k t⟩, w⟩)
    (hfail : ∀ e ∈ sends s.log t.id, accepts e.exchange = false) :
    ∀ x ∈ s.past n, accepts x = false := by
  intro x hx
  obtain ⟨e, he, rfl, rfl⟩ := mem_pastIn.1 hx
  by_contra hacc
  refine hacc (hfail e (List.mem_filter.2 ⟨he, ?_⟩))
  have hsome : (outcome? e.exchange).isSome = true := by
    rcases ho : outcome? e.exchange with _ | o
    · exact absurd (by rw [accepts, ho]) hacc
    · rfl
  rw [sendsFor, hsome, h.job_eq he hn]
  simp [Job.task?]

lemma attempted (hb : f.Built size) (hx : Stock f x₀) (hd : x₀.store.Distinct)
    (hnone : x₀.store.get? t.id = none) (h : Run f.rules { shared := x₀ } s)
    (hfl : Faultless s.log) (hfail : ∀ e ∈ sends s.log t.id, accepts e.exchange = false)
    {i k : Nat} {w : Work TaskOutcome} (hn : s.threads[n]? = some ⟨⟨i, .process k t⟩, w⟩)
    {d : Attempt}
    (hdc : Course (Attempt.Advance (f.queue i) t) (Attempt.begin t) (s.past n) d)
    (hw : w = d.work (f.queue i) t) (htook : d.took = true) :
    Attempted f size s n t w (nextAttempt t.attempts).toNat := by
  have hlt := (due_of_process h hx.bound hn).2
  have hnext := Attempt.toNat_nextAttempt hlt
  have hcount : (claimed t).attempts.toNat = t.attempts.toNat + 1 := hnext
  have hturn := turn_of_process h hx hd (turn_of_open hb hx hd hnone h).2 hn rfl
  have hpicks : ∀ stored index, ⟨.pick stored, index⟩ ∈ s.past n →
      index = f.turn size t.attempts.toNat := by
    intro stored index hp
    rw [hb.picked h hp, Attempt.picks_of_course hdc hp, hturn]
  have hacc := not_accepts_of_sends h hn hfail
  have hmax := UInt32.lt_iff_toNat_lt.1 hlt
  have hdone : ∀ o, w = .done o → d = .finished o := fun o ho =>
    finished_of_done (ho.symm.trans hw)
  rw [hnext]
  refine ⟨by omega, by omega, hcount, ?_, hpicks, fun index message o hs => ?_,
    fun o ho hm => ?_, fun o ho hm => ?_⟩
  · exact (Attempt.claims_of_course hdc t.id).trans (if_pos ⟨rfl, htook⟩)
  · exact hpicks _ index (Attempt.sends_of_course hdc hs)
  · obtain rfl := hdone o ho
    have hleft : nextAttempt t.attempts < f.config.maxAttempts :=
      UInt32.lt_iff_toNat_lt.2 (hnext ▸ hm)
    obtain rfl := rescheduled_of_failure hdc htook hacc hleft
    exact ⟨rfl, putBack_of_course hb hx h hfl hdc hturn hcount⟩
  · obtain rfl := hdone o ho
    cases o with
    | failed => exact ⟨rfl, givenUp_of_course hx hd h hfl hdc hcount⟩
    | skipped => cases htook
    | sent =>
      obtain ⟨x, hx, hyes⟩ := (Attempt.delivered_iff hdc).1 rfl
      rw [hacc x hx] at hyes
      cases hyes
    | rescheduled =>
      obtain ⟨l, event, htell, -⟩ := Attempt.told_of_course hdc (by simp)
      obtain ⟨l', retryAt, transport, error, answer, hput, -⟩ :=
        Attempt.put_back_of_telling htell
      have hleft := UInt32.lt_iff_toNat_lt.1 (Attempt.left_of_course hput rfl)
      rw [f.shared i, hcount] at hleft
      omega

/-- **A task of which no message is ever accepted** is tried as often as is allowed, each time
through the transport whose turn it is, and then given up for good. It was taken in on the way,
whatever was in the store before. -/
theorem exhausted (hb : f.Built size) (h : f.ReachableOver tasks s)
    (hd : (f.storeOf tasks).Distinct) (hnew : ∀ t ∈ tasks, t.id ≠ id) (hfl : Faultless s.log)
    (hfail : ∀ e ∈ sends s.log id, accepts e.exchange = false) : Exhausted f size s id := by
  obtain ⟨clock, hr⟩ := h
  have hx := stock_stocked f tasks clock
  have hnone : (f.stocked tasks clock).store.get? id = none :=
    List.find?_eq_none.2 fun t ht => by simpa using hnew t ht
  have c := counted_of_absent hr hx.bound hnone
  refine ⟨c.counted, c.bounded, fun n i tick t w a hn hclaim => ?_⟩
  obtain ⟨x, hxm, hc⟩ := hclaim
  obtain ⟨d, hdc, hw⟩ := attempt_of hr hn
  obtain ⟨rfl, htook⟩ := Attempt.took_of_claim hdc hxm (by rw [hc]; rfl)
  have hm : a ∈ (s.past n).filterMap (claim? t.id) := List.mem_filterMap.2 ⟨x, hxm, hc⟩
  rw [Attempt.claims_of_course hdc, if_pos ⟨rfl, htook⟩, List.mem_singleton] at hm
  subst hm
  exact ⟨rfl, attempted hb hx hd hnone hr hfl hfail hn hdc hw htook⟩

/-! ### A run -/

lemma answered_of_answer? {i : Nat} {x y : Shared} {mv : Move} {q : Ask} {a : q.Answer}
    (h : mv.answer? f i x q = some (a, y)) (hmv : ∀ n e, mv ≠ .fault n e) :
    ∀ c a', (⟨q, a⟩ : Exchange) = ⟨.store c, a'⟩ → x.store.Allows c a' := by
  rintro c a' hx
  cases hx
  cases mv with
  | reply n =>
    obtain rfl : (x.store.answer c).1 = a' := congrArg Prod.fst (Option.some.inj h)
    exact x.store.allows_answer c
  | fault n e => exact absurd rfl (hmv n e)
  | _ => cases h

lemma faultless_of_playAll {mvs : List Move} (h : f.playAll s mvs = some s')
    (hmv : ∀ mv ∈ mvs, ∀ n e, mv ≠ .fault n e) (hs : Faultless s.log) : Faultless s'.log := by
  induction mvs generalizing s with
  | nil => cases h; exact hs
  | cons mv mvs ih =>
    obtain ⟨u, hu, ht⟩ := Option.bind_eq_some_iff.1 h
    refine ih ht (fun mv' hm => hmv mv' (List.mem_cons_of_mem _ hm)) ?_
    have hresp : ∀ n, f.respond s mv n = some u → Faultless u.log := by
      intro n hr
      unfold respond at hr
      split at hr
      · obtain ⟨⟨a, y⟩, ha, rfl⟩ := Option.map_eq_some_iff.1 hr
        intro e he
        rcases List.mem_append.1 he with he | he
        · exact hs e he
        · obtain rfl := List.mem_singleton.1 he
          exact answered_of_answer? ha (hmv mv (List.mem_cons_self ..))
      · cases hr
    cases mv with
    | clock => cases hu; exact hs
    | start i duty =>
      cases duty with
      | process => cases hu
      | _ => cases hu; exact hs
    | takeUp tick =>
      obtain ⟨j, -, rfl⟩ := Option.map_eq_some_iff.1 hu
      exact hs
    | reply n | fault n | name n | outcome n => exact hresp n hu

def twice : Fleet :=
  uniform { maxAttempts := 2, failsToNext := 1 } [⟨"smtp", none⟩, ⟨"relay", none⟩]

/-- Two ticks fail to send, each through another transport, and the task is removed. -/
def inVain : List Move :=
  [.start 0 (.enqueue (note "a@x" "one")), .name 0 (.ofNat 1), .reply 0,
    .start 0 .list, .reply 1, .reply 1, .takeUp 1, .reply 2, .reply 2,
    .outcome 2 (.error (.connection "down")), .reply 2, .reply 2, .reply 2,
    .clock hour, .start 0 .list, .reply 3, .reply 3, .takeUp 3,
    .reply 4, .reply 4, .outcome 4 (.error (.connection "down")), .reply 4, .reply 4,
    .start 0 .list, .reply 5, .reply 5]

lemma built_twice : twice.Built 2 :=
  ⟨fun _ => ⟨[⟨"smtp", none⟩, ⟨"relay", none⟩], none, rfl, by rfl⟩, rfl, by decide, by decide⟩

theorem exhausted_inVain : ∃ s, twice.Built 2 ∧ twice.ReachableOver [] s ∧
    (twice.storeOf []).Distinct ∧ (∀ t ∈ ([] : List Task), t.id ≠ .ofNat 1) ∧ Faultless s.log ∧
    (∀ e ∈ sends s.log (.ofNat 1), accepts e.exchange = false) ∧
    (sends s.log (.ofNat 1)).length = 2 ∧ Exhausted twice 2 s (.ofNat 1) := by
  have key : ((twice.playAll { shared := twice.first [] .epoch } inVain).any fun s =>
      (sends s.log (.ofNat 1)).all (fun e => !accepts e.exchange) &&
        (sends s.log (.ofNat 1)).length == 2) = true := by decide +kernel
  obtain ⟨s, hs, hv⟩ := (Option.any_eq_true ..).1 key
  simp only [Bool.and_eq_true, List.all_eq_true, Bool.not_eq_true', beq_iff_eq] at hv
  obtain ⟨hfail, hlen⟩ := hv
  have hreach : twice.ReachableOver [] s := ⟨.epoch, run_of_playAll hs⟩
  have hd : (twice.storeOf []).Distinct := by simp [Memory.Distinct, storeOf]
  have hnew : ∀ t ∈ ([] : List Task), t.id ≠ .ofNat 1 := by simp
  have hfl : Faultless s.log := faultless_of_playAll hs (by simp [inVain]) (by simp [Faultless])
  exact ⟨s, built_twice, hreach, hd, hnew, hfl, hfail, hlen,
    exhausted built_twice hreach hd hnew hfl hfail⟩

end MailQueue.Fleet

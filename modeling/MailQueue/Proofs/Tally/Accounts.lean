import MailQueue.Proofs.Tally.Conduct

/-!
# The books of a tick

The report of a tick against what was asked and answered while it ran: how many entries it was given,
how many claims were granted, and which events listeners were told. Nothing is supposed of the
answers, nor of the order in which the work on different entries goes on.

* `within_handle` bounds what is asked on behalf of an entry;
* `Accounts` are the books of a tick whose work has ended, and `accounts_of_run` shows that they are
  in order however the work was mixed;
* `Booked` says so of one particular way to answer, `booked_processAll` shows it of the tasks one
  after the other and `booked_crew` of so many at a time;
* `balanced` puts this together.
-/

namespace MailQueue

open Queue Interleaving

namespace TickReport

theorem foldl_absorb (r : TickReport) (os : List TaskOutcome) : os.foldl absorb r =
    { examined := r.examined + os.length
      claimed := r.claimed + os.countP (· != .skipped)
      sent := r.sent + os.count .sent
      rescheduled := r.rescheduled + os.count .rescheduled
      failed := r.failed + os.count .failed
      skipped := r.skipped + os.count .skipped } := by
  induction os generalizing r with
  | nil => rfl
  | cons o os ih =>
    rw [List.foldl_cons, ih]
    cases o <;> simp [absorb] <;> omega

/-- The outcomes part into those of claimed tasks and the others. -/
theorem counts_part (os : List TaskOutcome) :
    os.length = os.countP (· != .skipped) + os.count .skipped ∧
      os.countP (· != .skipped) = os.count .sent + os.count .rescheduled + os.count .failed := by
  induction os with
  | nil => exact ⟨rfl, rfl⟩
  | cons o os ih =>
    obtain ⟨hlength, hclaimed⟩ := ih
    cases o <;> constructor <;> simp <;> omega

end TickReport

namespace Tally

open Program

variable {q : Queue} {now : Instant} {due : List Store.Due} {σ : Type}

/-! ### How much is asked -/

lemma within_deliver (q : Queue) (index : Nat) (t : Task) : (q.deliver index t).Within 1 := by
  unfold deliver
  split
  · trivial
  · split
    · trivial
    · intro outcome
      cases outcome <;> trivial

lemma within_settle (q : Queue) (t : Task) (report : SendReport) :
    (q.settle t report).Within 2 := by
  unfold settle
  split
  · exact fun _ _ => trivial
  · exact fun _ => trivial

lemma within_handleFailure (q : Queue) (t : Task) (index : Nat) (e : DeliveryError) :
    (q.handleFailure t index e).Within 3 := by
  unfold handleFailure
  split
  · split <;> exact fun _ _ => trivial
  · exact fun _ _ _ => trivial

lemma within_process (q : Queue) (t : Task) : (q.process t).Within 6 := by
  unfold process
  split
  · trivial
  · intro answer
    rcases answer with e | _ | _
    · trivial
    · trivial
    · intro index
      refine (within_deliver q index (claimed t)).bind (n := 3) fun r => ?_
      cases r with
      | ok report => exact (within_settle q (claimed t) report).mono (by omega)
      | error e => exact within_handleFailure q (claimed t) index e

/-- The work on an entry asks seven questions at most. -/
lemma within_handle (q : Queue) (now : Instant) (due : Store.Due) :
    (Crew.handle (q.scout now) due).Within 7 := by
  have task : ∀ t, (Crew.carry (some (q.process t))).Within 6 := fun t =>
    (within_process q t).bind (n := 0) fun _ => trivial
  cases due with
  | task t => exact (task t).mono (by omega)
  | unreadable e => trivial
  | mark key =>
    intro answer
    rcases answer with e | _ | t
    · trivial
    · trivial
    · exact task t

/-! ### The books -/

/-- The books of a tick over these entries, of which all work has ended. -/
structure Accounts (q : Queue) (now : Instant) (due : List Store.Due)
    (s : Crew.State Ask Ask.Answer TaskOutcome σ due) (r : TickReport) : Prop where
  /-- Each entry is worked on once, -/
  once : (s.threads.map Thread.job).Perm (List.finRange due.length)
  /-- and whatever was answered, nothing was asked on its behalf but this. -/
  handled : ∀ n p w, s.threads[n]? = some ⟨p, w⟩ →
    ∃ o, w = .done o ∧ Handled q now (due.get p) (s.past n) o
  /-- The tasks examined are the entries, less the marks whose task was not due any more. -/
  examined : r.examined + s.log.countP (fun e => vanishes e.exchange) = due.length
  parted : r.examined = r.claimed + r.skipped
  resolved : r.claimed = r.sent + r.rescheduled + r.failed
  claimed : r.claimed = s.log.countP fun e => claims e.exchange
  sent : r.sent = s.log.countP fun e => tells .sent e.exchange
  rescheduled : r.rescheduled = s.log.countP fun e => tells .rescheduled e.exchange
  failed : r.failed = s.log.countP fun e => tells .failed e.exchange

section Runs

variable {answers : (a : Ask) → σ → a.Answer → σ → Prop} {x : σ}
  {s : Crew.State Ask Ask.Answer TaskOutcome σ due}

lemma handled_of_run (h : Run (Crew.rules (q.scout now) due answers) { shared := x } s)
    (hc : Crew.Complete s) {n : Nat} {p : Fin due.length} {w : Work (Option TaskOutcome)}
    (hn : s.threads[n]? = some ⟨p, w⟩) :
    ∃ o, w = .done o ∧ Handled q now (due.get p) (s.past n) o := by
  obtain ⟨o, rfl⟩ : ∃ o, w = .done o :=
    hc.2 w (List.mem_map.2 ⟨_, List.mem_of_getElem? hn, rfl⟩)
  exact ⟨o, rfl, handled_of_path (h.path hn)⟩

/-- The records of a tick agree with what its tasks are counted as. -/
lemma counted_of_run (h : Run (Crew.rules (q.scout now) due answers) { shared := x } s)
    (hc : Crew.Complete s) :
    Counted due.length (s.log.map Interleaving.Entry.exchange) (Crew.outcomes s) := by
  have hall : List.Forall₂ (Counted 1) ((List.range s.threads.length).map s.past)
      ((Crew.left s).map fun w => (Crew.outcome? w).toList) := by
    refine List.forall₂_iff_get.2 ⟨by simp [Crew.left], fun n hn _ => ?_⟩
    have hlt : n < s.threads.length := by simpa using hn
    obtain ⟨o, (ho : s.threads[n].work = .done o), hh⟩ :=
      handled_of_run h hc (List.getElem?_eq_getElem hlt)
    suffices hr : Counted 1 (s.past n) (Crew.outcome? s.threads[n].work).toList by
      simpa [Crew.left] using hr
    rw [ho]
    exact hh.counted
  have hlen : ((List.range s.threads.length).map s.past).length = due.length := by
    simpa using hc.1.length_eq
  have hcount := counted_flatten hall
  rw [hlen] at hcount
  refine hcount.perm h.perm_pasts ?_
  rw [Crew.outcomes, List.filterMap_eq_flatMap_toList, List.flatMap_def]

/-- **The books are in order** when all work has ended, in whatever order the results come. -/
lemma accounts_of_run (h : Run (Crew.rules (q.scout now) due answers) { shared := x } s)
    (hc : Crew.Complete s) {os : List TaskOutcome} (ho : (Crew.outcomes s).Perm os) :
    Accounts q now due s (os.foldl TickReport.absorb {}) := by
  have hcount := (counted_of_run h hc).perm (.refl _) ho
  have hclaims := hcount.claims
  have htells := hcount.tells
  have hvanishes := hcount.vanishes
  simp only [List.countP_map] at hclaims htells hvanishes
  obtain ⟨hexamined, hclaimed⟩ := TickReport.counts_part os
  rw [TickReport.foldl_absorb]
  simp only [Nat.zero_add]
  exact ⟨hc.1, fun n p w hn => handled_of_run h hc hn, hvanishes, hexamined, hclaimed, hclaims.symm,
    (htells _ (by simp)).symm, (htells _ (by simp)).symm, (htells _ (by simp)).symm⟩

end Runs

/-! ### The tick -/

/-- A tick over these entries, answered by steps on a state, has brought all work to its end, and
its report is in order. -/
def Booked (q : Queue) (answer : (a : Ask) → σ → a.Answer × σ) (now : Instant)
    (due : List Store.Due) (x : σ) (r : TickReport × σ) : Prop :=
  ∃ s : Crew.State Ask Ask.Answer TaskOutcome σ due,
    Run (Crew.rules (q.scout now) due (Crew.answering answer)) { shared := x } s ∧
      Crew.Complete s ∧ s.shared = r.2 ∧ Accounts q now due s r.1

section Tick

variable {answer : (a : Ask) → σ → a.Answer × σ} {x y : σ}

/-- The entries can be worked on one after the other, each of them to its end. -/
lemma reached_processAll {es : List Store.Due} {os : List TaskOutcome} {k : Nat}
    (h : Crew.Reached (q.scout now) answer x due y
      (Multiset.ofList (es.map (Crew.handle (q.scout now))) + Crew.ended os k) 0)
    (r : TickReport) :
    ∃ os' k', Crew.Reached (q.scout now) answer x due ((q.processAll now r es).run answer y).2
        (Crew.ended (os ++ os') k') 0 ∧
      ((q.processAll now r es).run answer y).1 = os'.foldl TickReport.absorb r := by
  induction es generalizing r os k y with
  | nil =>
    refine ⟨[], k, ?_, rfl⟩
    rw [List.map_nil, Multiset.coe_nil, zero_add] at h
    rw [List.append_nil]
    exact h
  | cons e es ih =>
    rw [List.map_cons, ← Multiset.cons_coe, Multiset.cons_add] at h
    have hscout := h.run
    rcases hs : (q.scout now e).run answer y with ⟨_ | work, z⟩ <;> rw [hs] at hscout
    · rw [run_processAll_of_none r es hs]
      refine ih (k := k + 1) ?_ r
      rw [Crew.ended, Multiset.replicate_succ, Multiset.add_cons, Multiset.add_cons]
      exact hscout
    · rw [run_processAll_of_some r es hs]
      -- the job goes on to its end before the next entry is looked at
      have hwork := hscout.run
      rw [← Multiset.add_cons, ← Crew.ended_append] at hwork
      obtain ⟨os', k', hr, hreport⟩ := ih hwork (r.absorb (work.run answer z).1)
      exact ⟨(work.run answer z).1 :: os', k', by simpa using hr, hreport⟩

/-- **A tick on its own**, one task after the other. -/
lemma booked_processAll (q : Queue) (answer : (a : Ask) → σ → a.Answer × σ) (now : Instant)
    (due : List Store.Due) (x : σ) :
    Booked q answer now due x ((q.processAll now {} due).run answer x) := by
  have hfirst : Crew.Reached (q.scout now) answer x due x
      (Multiset.ofList (due.map (Crew.handle (q.scout now))) + Crew.ended [] 0) 0 := by
    simpa [Crew.ended] using Crew.reached_first
  obtain ⟨os, k, hr, hreport⟩ := reached_processAll hfirst {}
  obtain ⟨s, hrun, hcomplete, hshared, hperm⟩ := hr.complete
  exact ⟨s, hrun, hcomplete, hshared, hreport ▸ accounts_of_run hrun hcomplete hperm⟩

/-- **A tick with its concurrency**, so many tasks at a time. -/
lemma booked_crew (q : Queue) (waits : Ask → Bool) (answer : (a : Ask) → σ → a.Answer × σ)
    (now : Instant) (due : List Store.Due) (x : σ) {limit rounds : Nat} (hl : 0 < limit)
    (hr : due.length * 7 < rounds) :
    ∃ os y, Crew.run waits answer (q.scout now) limit rounds { entries := due } x = (os, y) ∧
      Booked q answer now due x (os.foldl TickReport.absorb {}, y) := by
  obtain ⟨s, hrun, hcomplete, hshared, hperm⟩ := Crew.run_complete waits hl
    (fun s h => Crew.length_log_le (fun e _ => within_handle q now e) h) hr
  exact ⟨_, _, rfl, s, hrun, hcomplete, hshared, accounts_of_run hrun hcomplete hperm⟩

end Tick

/-- **A tick keeps its books**, whatever stores, transports and clocks answer. -/
structure Balanced (q : Queue) : Prop where
  /-- However the work on due tasks is mixed, it gets seven answers for each of them at most, and
  when all of it has ended, the books are in order. -/
  mixed : ∀ {σ : Type} (answers : (a : Ask) → σ → a.Answer → σ → Prop) (now : Instant)
    (due : List Store.Due) (x : σ) (s : Crew.State Ask Ask.Answer TaskOutcome σ due),
    Run (Crew.rules (q.scout now) due answers) { shared := x } s →
      s.log.length ≤ due.length * 7 ∧
        (Crew.Complete s → Accounts q now due s ((Crew.outcomes s).foldl TickReport.absorb {}))
  /-- The tick lists what is due, and works on it one task after the other, -/
  tick : ∀ {σ : Type} (answer : (a : Ask) → σ → a.Answer × σ) (now : Instant)
    (due : List Store.Due) (x x₁ x₂ : σ), answer .now x = (now, x₁) →
    answer (.store (.due now)) x₁ = (.ok due, x₂) →
    q.dueNow.run answer x = (some (now, due), x₂) ∧
      Booked q answer now due x₂ (q.tick.run answer x)
  /-- or so many at a time as the settings allow; -/
  crew : ∀ {σ : Type} (waits : Ask → Bool) (answer : (a : Ask) → σ → a.Answer × σ) (now : Instant)
    (due : List Store.Due) (x : σ) (rounds : Nat), due.length * 7 < rounds →
    ∃ os y, Crew.run waits answer (q.scout now) (max q.config.tickConcurrency 1) rounds
        { entries := due } x = (os, y) ∧
      Booked q answer now due x (os.foldl TickReport.absorb {}, y)
  /-- if the store cannot list what is due, it does nothing. -/
  unlisted : ∀ {σ : Type} (answer : (a : Ask) → σ → a.Answer × σ) (now : Instant) (e : StoreError)
    (x x₁ x₂ : σ), answer .now x = (now, x₁) →
    answer (.store (.due now)) x₁ = (.error e, x₂) → q.tick.run answer x = ({}, x₂)
  /-- The claim counts one more attempt, up to the largest number there is. -/
  tries : ∀ t, (claimed t).attempts.toNat = min (t.attempts.toNat + 1) 4294967295

lemma toNat_claimed (t : Task) :
    (claimed t).attempts.toNat = min (t.attempts.toNat + 1) 4294967295 := by
  have hmax := t.attempts.toNat_lt
  show (nextAttempt t.attempts).toNat = _
  unfold nextAttempt
  split
  · next h =>
    rw [h]
    rfl
  · next h =>
    have hne : t.attempts.toNat ≠ 4294967295 := fun he => h (UInt32.toNat_inj.1 he)
    rw [UInt32.toNat_add]
    simp
    omega

/-- **A tick keeps its books.** -/
theorem balanced (q : Queue) (hc : q.config.mode.isConsumer = true) : Balanced q where
  mixed answers now due x s h :=
    ⟨Crew.length_log_le (fun e _ => within_handle q now e) h,
      fun hcomplete => accounts_of_run h hcomplete (.refl _)⟩
  tick answer now due x x₁ x₂ hnow hdue := by
    have hlist : q.dueNow.run answer x = (some (now, due), x₂) := by
      rw [run_dueNow_eq hc hnow, hdue]
    refine ⟨hlist, ?_⟩
    rw [run_tick_eq, hlist]
    exact booked_processAll q answer now due x₂
  crew waits answer now due x rounds hr :=
    booked_crew q waits answer now due x (lt_of_lt_of_le Nat.one_pos (le_max_right _ _)) hr
  unlisted answer now e x x₁ x₂ hnow hdue := by
    rw [run_tick_eq, run_dueNow_eq hc hnow, hdue]
  tries := toNat_claimed

/-- A task for one address that names a transport and has made some attempts. -/
def queued (n transport : Nat) (attempts : UInt32) : Task :=
  { Task.new (.ofNat n) { Mail.new (.one "a@x") with text := some "one" } .epoch with
    transport := transport, attempts := attempts }

/-- A queue of three transports that works on two tasks at a time. -/
def threeRoads : Queue :=
  .wire { maxAttempts := 3, failsToNext := 1, tickConcurrency := 2 }
    [⟨"smtp", none⟩, ⟨"relay", none⟩, ⟨"spare", none⟩] none

/-- A task that is delivered, one that is put back, one that is given up, one that another worker
claims, one that is not open any more, an entry that cannot be read, a mark of a task that is not
due any more, and a mark of a task that no address accepts. -/
def assorted : List Store.Due :=
  [.task (queued 1 0 0), .task (queued 2 1 0), .task (queued 3 1 2), .task (queued 4 0 0),
    .task { queued 5 0 0 with sent := true }, .unreadable .unreadable, .mark "gone", .mark "six"]

/-- The first transport accepts, the second crashes, the third accepts nothing; the store loses one
claim and fails each removal. -/
def reply : (a : Ask) → Unit → a.Answer × Unit
  | .now, x => (.epoch, x)
  | .freshId, x => (.ofNat 0, x)
  | .store (.due _), x => (.ok assorted, x)
  | .store (.look key _), x => (.ok (if key = "gone" then none else some (queued 6 2 0)), x)
  | .store (.find _ _), x => (.ok none, x)
  | .store (.insert _), x => (.ok (), x)
  | .store (.mutate id _), x => (.ok (id != .ofNat 4), x)
  | .store (.delete _), x => (.error .unreadable, x)
  | .store (.cancel _), x => (.ok false, x)
  | .pick stored, x => (stored, x)
  | .send index _, x =>
    (if index = 0 then .report { accepted := ["a@x"] }
      else if index = 1 then .crash "down" else .report { accepted := [] }, x)
  | .tell _, x => ((), x)

/-- Calls of the store have to wait. -/
def storeWaits : Ask → Bool
  | .store _ => true
  | _ => false

theorem balanced_assorted : threeRoads.config.mode.isConsumer = true ∧ Balanced threeRoads ∧
    (∃ os y, Crew.run storeWaits reply (threeRoads.scout .epoch) 2 57 { entries := assorted } () =
      (os, y) ∧ Booked threeRoads reply .epoch assorted () (os.foldl TickReport.absorb {}, y)) ∧
    (threeRoads.tick.run reply ()).1 =
      { examined := 7, claimed := 4, sent := 1, rescheduled := 2, failed := 1, skipped := 3 } ∧
    (Crew.run storeWaits reply (threeRoads.scout .epoch) 2 57 { entries := assorted } ()).1 =
      [.sent, .rescheduled, .skipped, .skipped, .skipped, .failed, .rescheduled] :=
  ⟨rfl, balanced threeRoads rfl,
    (balanced threeRoads rfl).crew storeWaits reply .epoch assorted () 57 (by decide),
    by decide +kernel, by decide +kernel⟩

end Tally

end MailQueue

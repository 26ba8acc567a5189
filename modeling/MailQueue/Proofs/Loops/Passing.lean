import MailQueue.Proofs.Loops.Basic

/-!
# Calls one after the other

A scheduler whose calls follow each other, with time passing between them, goes through states of
the loops beside each other: there is an order of their steps that does the same.

* `AtRest`: every loop waits for its timer, and no shutdown was requested, as in a new scheduler;
* `AtRest.register` and `AtRest.pass` lead from rest to rest, as `Scheduler.register` and
  `TickLoop.pass` do;
* `AtRest.shutdown` leads from rest to the end of all loops, as `Scheduler.shutdown` does.
-/

namespace MailQueue.Loops

variable {s t : State} {i : Nat} {l : TickLoop}

/-- All loops wait for their timers. -/
structure AtRest (s : State) : Prop where
  waiting : ∀ i < s.scheduler.loops.length, s.stage i = .waiting
  idle : s.scheduler.shuttingDown = false
  heard : ∀ i, s.heard i ≤ s.requests

lemma atRest_new : AtRest {} := ⟨by simp, rfl, fun _ => Nat.le_refl _⟩

/-- **A loop that is registered** looks once, and waits. -/
theorem AtRest.register (h : AtRest s) {interval : Nat} {scope : String} {u : Scheduler}
    (hu : s.scheduler.register true interval scope = .ok u) :
    ∃ t, Run s t ∧ t.scheduler = u ∧ AtRest t := by
  have hstep : Step s (s.register interval scope) := .register interval scope
  unfold State.register at hstep
  rw [hu] at hstep
  obtain ⟨-, rfl⟩ := Scheduler.register_eq_ok_iff.1 hu
  refine ⟨_, (Relation.ReflTransGen.single hstep).tail
    (.look (i := s.scheduler.loops.length) (Function.update_self _ _ _)), rfl, ⟨?_, h.idle, ?_⟩⟩
  · intro i hi
    have hi : i < s.scheduler.loops.length + 1 := by simpa [State.look] using hi
    by_cases hin : i = s.scheduler.loops.length
    · simp [State.look, hin, h.idle]
    · simpa [State.look, hin] using h.waiting i (by omega)
  · intro i
    by_cases hin : i = s.scheduler.loops.length
    · simp [State.look, hin]
    · simpa [State.look, hin] using h.heard i

/-- A run from its beginning to its end, after which the loop looks and waits again. -/
lemma AtRest.fire (h : AtRest s) (hl : s.scheduler.loops[i]? = some l) (time busy : Nat) :
    ∃ t, Run s t ∧ t.scheduler = s.setLoop i (l.fire time busy false) ∧ AtRest t := by
  have hlt := (List.getElem?_eq_some_iff.1 hl).1
  have begun := Relation.ReflTransGen.single (Step.begin hl (h.waiting i hlt) time)
  have finished := begun.tail (.finish (i := i) (l := l.fire time 0 false)
    (List.getElem?_set_self hlt) (Function.update_self _ _ _) busy)
  refine ⟨_, finished.tail (.look (i := i) (Function.update_self _ _ _)), ?_, ?_, h.idle, h.heard⟩
  · simp [State.look, State.finish, State.begin, State.setLoop, TickLoop.fire]
  · intro j hj
    have hj : j < s.scheduler.loops.length := by
      simpa [State.look, State.finish, State.begin, State.setLoop] using hj
    by_cases hij : j = i
    · have hidle : (State.begin s i l time).scheduler.shuttingDown = false := h.idle
      simp [State.look, State.finish, State.setLoop, hij, hidle]
    · simpa [State.look, State.finish, State.begin, hij] using h.waiting j hj

/-- **Time that passes**, with handlers that do not crash. -/
theorem AtRest.pass {σ : Type} {run : TickLoop → σ → (Nat × Bool) × σ}
    (steady : ∀ l w, (run l w).1.2 = false) (now stop fuel : Nat) (w : σ) (h : AtRest s) :
    ∃ t, Run s t ∧ AtRest t ∧ t.scheduler =
      { s.scheduler with loops := (TickLoop.pass run now stop fuel s.scheduler.loops w).1 } := by
  induction fuel generalizing s w with
  | zero => exact ⟨s, .refl, h, rfl⟩
  | succ fuel ih =>
    unfold TickLoop.pass
    rcases TickLoop.earliest now s.scheduler.loops with _ | ⟨i, time⟩
    · exact ⟨s, .refl, h, rfl⟩
    · by_cases hstop : stop ≤ time
      · exact ⟨s, .refl, h, by simp [hstop]⟩
      · rcases hl : s.scheduler.loops[i]? with _ | l
        · exact ⟨s, .refl, h, by simp [hstop, hl]⟩
        · -- the loop that is due runs, and time goes on to pass
          obtain ⟨u, hu, hscheduler, hrest⟩ := h.fire hl time (run l w).1.1
          obtain ⟨t, ht, hrest', hpass⟩ := ih (run l w).2 hrest
          refine ⟨t, hu.trans ht, hrest', hpass.trans ?_⟩
          simp [hstop, hl, hscheduler, State.setLoop, steady]

lemma exists_run_ended (hs : s.scheduler.shuttingDown = true) (n : Nat)
    (hw : ∀ i < n, s.stage i = .waiting ∧ s.heard i ≠ s.requests) :
    ∃ t, Run s t ∧ t.scheduler = s.scheduler ∧ t.calls = s.calls ∧ t.requests = s.requests ∧
      (∀ i < n, t.stage i = .ended) ∧
      ∀ i, n ≤ i → t.stage i = s.stage i ∧ t.heard i = s.heard i := by
  induction n with
  | zero => exact ⟨s, .refl, rfl, rfl, rfl, by simp, fun i _ => ⟨rfl, rfl⟩⟩
  | succ n ih =>
    obtain ⟨t, ht, hscheduler, hcalls, hrequests, hended, hrest⟩ :=
      ih fun i hi => hw i (by omega)
    obtain ⟨hstage, hheard⟩ := hrest n (Nat.le_refl _)
    obtain ⟨hwait, hnews⟩ := hw n (Nat.lt_succ_self n)
    have heard := ht.tail (.hear (hstage.trans hwait) (by rwa [hheard, hrequests]))
    refine ⟨_, heard.tail (.look (i := n) (Function.update_self _ _ _)), hscheduler, hcalls,
      hrequests, fun i hi => ?_, fun i hi => ?_⟩
    · by_cases hin : i = n
      · simp [State.look, State.hear, hin, hscheduler, hs]
      · simpa [State.look, State.hear, hin] using hended i (by omega)
    · have hin : i ≠ n := by omega
      simpa [State.look, State.hear, hin] using hrest i (by omega)

/-- **A call that shuts down and waits**, with no other call beside it. -/
theorem AtRest.shutdown (h : AtRest s) :
    ∃ t, Run s t ∧ t.scheduler = s.scheduler.shutdown ∧ t.calls = s.calls ++ [.returned] ∧
      ∀ i < s.scheduler.loops.length, t.stage i = .ended := by
  have hcall : s.enter.calls[s.calls.length]? = some .entered := by simp [State.enter]
  have drained := (Relation.ReflTransGen.single Step.enter).tail (Step.drain hcall)
  obtain ⟨t, ht, hscheduler, hcalls, -, hended, -⟩ :=
    exists_run_ended (s := s.enter.drain s.calls.length) rfl s.scheduler.loops.length
      fun i hi => ⟨h.waiting i hi, Nat.ne_of_lt (Nat.lt_succ_of_le (h.heard i))⟩
  have hmine : t.calls[s.calls.length]? = some (.awaiting s.enter.listed) := by
    rw [hcalls]
    simp [State.drain, State.enter]
  refine ⟨_, (drained.trans ht).tail (.leave hmine fun i hi => hended i ?_), ?_, ?_, hended⟩
  · have hi := (List.mem_filter.1 hi).1
    simpa [State.marks, State.enter, Scheduler.requestShutdown] using hi
  · show t.scheduler = _
    rw [hscheduler]
    simp [State.drain, State.enter, Scheduler.requestShutdown, Scheduler.shutdown,
      Function.comp_def]
  · show t.calls.set _ _ = _
    rw [hcalls]
    simp [State.drain, State.enter]

end MailQueue.Loops

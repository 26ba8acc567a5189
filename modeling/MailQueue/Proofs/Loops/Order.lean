import MailQueue.Proofs.Loops.Invariant

/-!
# Loops keep order

What holds of a scheduler in whatever order its callers, the timers, the handlers and the loops
take their steps.

* `begun_since`: once a shutdown was requested a loop begins one more run at most, for a loop that
  has begun one looks again, and ends;
* `Still` is a scheduler in which nothing happens any more, `still_of_joined` says when a call that
  shuts down and waits leaves it so;
* `Orderly` gathers all this, and `loops_orderly` shows it of every state that can be reached.
-/

namespace MailQueue.Loops

variable {s t : State} {i c : Nat} {ns : String}

/-! ### From one state to a later one -/

lemma Reachable.of_prefix {pre : List Event} (h : Reachable s) (hpre : pre <+: s.log) :
    ∃ u, Reachable u ∧ u.log = pre := by
  obtain ⟨post, hpost⟩ := hpre
  rcases post with _ | ⟨e, post⟩
  · exact ⟨s, h, by simpa using hpost.symm⟩
  · obtain ⟨u, -, hu, hlog, -⟩ := Run.split h rfl hpost.symm
    exact ⟨u, hu, hlog⟩

lemma Flagged.shuttingDown_of_run (hs : Flagged s) (ht : Flagged t) (hrun : Run s t)
    (h : s.scheduler.shuttingDown = true) : t.scheduler.shuttingDown = true := by
  rw [hs.flag, List.any_eq_true] at h
  obtain ⟨e, he, hreq⟩ := h
  rw [ht.flag, List.any_eq_true]
  exact ⟨e, hrun.log.subset he, hreq⟩

lemma Step.names (step : Step s t) (h : s.scheduler.shuttingDown = true) :
    t.names = s.names := by
  cases step with
  | register interval scope =>
    obtain ⟨e, -, he⟩ := State.register_of_shuttingDown h interval scope
    rw [he]
    rfl
  | request => exact State.names_request
  | enter => exact State.names_enter
  | drain => exact State.names_drain
  | leave | look | hear => rfl
  | begin hl _ time => exact State.names_begin hl time
  | finish hl _ busy => exact State.names_finish hl busy

lemma Step.registered (step : Step s t) (h : ns ∈ s.names ↔ .registered ns ∈ s.log) :
    ns ∈ t.names ↔ .registered ns ∈ t.log := by
  cases step with
  | register interval scope =>
    rcases s.register_cases interval scope with ⟨e, -, he⟩ | ⟨-, -, he⟩ <;> rw [he]
    · simpa [State.names] using h
    · simp only [State.names, List.map_append, List.mem_append] at h ⊢
      rw [h]
      simp
  | request => rw [State.names_request]; simpa [State.request] using h
  | enter => rw [State.names_enter]; simpa [State.enter] using h
  | drain => rw [State.names_drain]; exact h
  | leave => simpa [State.names, State.leave] using h
  | look | hear => exact h
  | begin hl _ time => rw [State.names_begin hl time]; simpa [State.begin] using h
  | finish hl _ busy => rw [State.names_finish hl busy]; simpa [State.finish] using h

lemma Reachable.registered (h : Reachable s) : ns ∈ s.names ↔ .registered ns ∈ s.log := by
  induction h with
  | refl => simp [State.names]
  | tail _ step ih => exact step.registered ih

lemma Flagged.not_requested (h : Flagged s) :
    s.scheduler.shuttingDown = false ↔ ∀ e ∈ s.log, e.requests = false := by
  rw [h.flag, List.any_eq_false]
  simp

/-- A run can come to its end, and no other step ends it. -/
lemma Sound.undisturbed (h : Sound s) (hr : s.stage i = .running) :
    (∃ l, s.scheduler.loops[i]? = some l ∧ ∀ busy, Step s (s.finish i l busy)) ∧
      ∀ t, Step s t → t.stage i = .running ∨
        ∃ l busy, s.scheduler.loops[i]? = some l ∧ t = s.finish i l busy := by
  have hlt : i < s.scheduler.loops.length := by
    simpa [State.names] using h.there i (by simp [hr])
  refine ⟨⟨_, List.getElem?_eq_getElem hlt, fun busy => .finish (List.getElem?_eq_getElem hlt) hr
    busy⟩, fun t step => ?_⟩
  cases step with
  | register interval scope =>
    rcases s.register_cases interval scope with ⟨e, -, he⟩ | ⟨-, -, he⟩ <;> rw [he]
    · exact .inl hr
    · exact .inl (by simpa [Nat.ne_of_lt hlt] using hr)
  | request | enter | drain | leave => exact .inl hr
  | @look j hl =>
    have hij : i ≠ j := by rintro rfl; cases hr.symm.trans hl
    exact .inl (by simpa [State.look, hij] using hr)
  | @hear j hw =>
    have hij : i ≠ j := by rintro rfl; cases hr.symm.trans hw
    exact .inl (by simpa [State.hear, hij] using hr)
  | @begin j l hl hw =>
    have hij : i ≠ j := by rintro rfl; cases hr.symm.trans hw
    exact .inl (by simpa [State.begin, hij] using hr)
  | @finish j l hl hr' busy =>
    by_cases hij : i = j
    · subst hij
      exact .inr ⟨l, busy, hl, rfl⟩
    · exact .inl (by simpa [State.finish, hij] using hr)

/-! ### After a request -/

/-- How many runs a loop has begun, with the one that it may begin without another look. -/
def State.committed (s : State) (i : Nat) (ns : String) : Nat :=
  s.log.count (.began ns) + if s.stage i = .waiting then 1 else 0

lemma State.committed_le_of_eq (hst : t.stage i = s.stage i)
    (hlog : t.log.count (.began ns) = s.log.count (.began ns)) :
    t.committed i ns ≤ s.committed i ns := by
  have heq : t.committed i ns = s.committed i ns := by
    unfold State.committed
    rw [hst, hlog]
  exact Nat.le_of_eq heq

/-- No loop commits itself any further once a shutdown was requested. -/
lemma Step.committed_le (step : Step s t) (h : Sound s) (hs : s.scheduler.shuttingDown = true)
    (hi : s.names[i]? = some ns) : t.committed i ns ≤ s.committed i ns := by
  cases step with
  | register interval scope =>
    obtain ⟨e, -, he⟩ := State.register_of_shuttingDown hs interval scope
    rw [he]
    exact State.committed_le_of_eq rfl (by simp)
  | request => exact State.committed_le_of_eq rfl (by simp [State.request])
  | enter => exact State.committed_le_of_eq rfl (by simp [State.enter])
  | drain => exact State.committed_le_of_eq rfl rfl
  | leave => exact State.committed_le_of_eq rfl (by simp [State.leave])
  | @look j hl =>
    by_cases hij : i = j
    · simp [State.committed, State.look, hij, hs]
    · exact State.committed_le_of_eq (Function.update_of_ne hij _ _) rfl
  | @hear j =>
    by_cases hij : i = j
    · simp [State.committed, State.hear, hij]
    · exact State.committed_le_of_eq (Function.update_of_ne hij _ _) rfl
  | @begin j l hl hw =>
    have hj := State.name_of_getElem? hl
    by_cases hij : i = j
    · -- the run that it had committed itself to
      subst hij
      obtain rfl := Option.some.inj (hi.symm.trans hj)
      simp [State.committed, State.begin, hw]
    · have hne := h.ne_of_ne hj hi (Ne.symm hij)
      exact State.committed_le_of_eq (Function.update_of_ne hij _ _) (by simp [State.begin, hne])
  | @finish j l hl hr =>
    by_cases hij : i = j
    · simp [State.committed, State.finish, hij]
    · exact State.committed_le_of_eq (Function.update_of_ne hij _ _) (by simp [State.finish])

/-- **Once a shutdown was requested each scope begins at most one more run.** -/
theorem begun_since (h : Sound s) (hs : s.scheduler.shuttingDown = true) (hrun : Run s t)
    (ns : String) : t.log.count (.began ns) ≤ s.log.count (.began ns) + 1 := by
  have later {u : State} (hu : Run s u) : u.scheduler.shuttingDown = true ∧ u.names = s.names := by
    induction hu with
    | refl => exact ⟨hs, rfl⟩
    | tail hu step ih =>
      have hsu := sound_of_run h hu
      exact ⟨hsu.flagged.shuttingDown_of_run (hsu.step step).flagged (.single step) ih.1,
        (step.names ih.1).trans ih.2⟩
  by_cases hm : ns ∈ s.names
  · obtain ⟨i, hi⟩ := List.getElem?_of_mem hm
    have hle : t.committed i ns ≤ s.committed i ns := by
      induction hrun with
      | refl => exact Nat.le_refl _
      | tail hu step ih =>
        have hi' := (congrArg (·[i]?) (later hu).2).trans hi
        exact Nat.le_trans (step.committed_le (sound_of_run h hu) (later hu).1 hi') ih
    have hwait : s.committed i ns ≤ s.log.count (.began ns) + 1 := by
      unfold State.committed
      split <;> omega
    exact Nat.le_trans (Nat.le_add_right _ _) (Nat.le_trans hle hwait)
  · rw [← (later hrun).2] at hm
    rw [((sound_of_run h hrun).absent ns hm).1]
    exact Nat.zero_le _

lemma Reachable.begun_after {e : Event} {pre post : List Event} (h : Reachable s)
    (hlog : s.log = pre ++ e :: post) (hreq : e.requests = true) (ns : String) :
    post.count (.began ns) ≤ 1 := by
  obtain ⟨u, v, hu, -, step, hv, hvs⟩ := Run.split h rfl hlog
  have hsound := sound_of_run sound_new (hu.tail step)
  have hdown : v.scheduler.shuttingDown = true := by
    rw [hsound.flagged.flag, hv]
    simp [hreq]
  have hle := begun_since hsound hdown hvs ns
  rw [hlog, hv, List.append_cons, List.count_append] at hle
  omega

/-! ### After the end -/

/-- Nothing happens any more. -/
structure Still (s : State) : Prop where
  shuttingDown : s.scheduler.shuttingDown = true
  ended : ∀ i, s.stage i = .ended
  unlisted : ∀ b ∈ s.marks, b = false

lemma Still.step (h : Still s) (step : Step s t) :
    Still t ∧ ∀ ns, t.log.count (.began ns) = s.log.count (.began ns) := by
  have hne {i : Nat} {stage : Stage} (hst : s.stage i = stage) : stage = .ended :=
    hst.symm.trans (h.ended i)
  cases step with
  | register interval scope =>
    obtain ⟨e, -, he⟩ := State.register_of_shuttingDown h.shuttingDown interval scope
    rw [he]
    exact ⟨⟨h.shuttingDown, h.ended, h.unlisted⟩, fun ns => by simp⟩
  | request =>
    refine ⟨⟨rfl, h.ended, ?_⟩, fun ns => by simp [State.request]⟩
    rw [State.marks_request]
    exact h.unlisted
  | enter =>
    refine ⟨⟨rfl, h.ended, ?_⟩, fun ns => by simp [State.enter]⟩
    rw [State.marks_enter]
    exact h.unlisted
  | drain => exact ⟨⟨rfl, h.ended, by simp⟩, fun ns => rfl⟩
  | leave => exact ⟨⟨h.shuttingDown, h.ended, h.unlisted⟩, fun ns => by simp [State.leave]⟩
  | look hl => cases hne hl
  | hear hw | begin _ hw => cases hne hw
  | finish _ hr => cases hne hr

lemma still_of_run (h : Still s) (hrun : Run s t) :
    Still t ∧ ∀ ns, t.log.count (.began ns) = s.log.count (.began ns) := by
  induction hrun with
  | refl => exact ⟨h, fun ns => rfl⟩
  | tail _ step ih =>
    obtain ⟨hstill, hlog⟩ := ih.1.step step
    exact ⟨hstill, fun ns => (hlog ns).trans (ih.2 ns)⟩

lemma Still.scopes (h : Still s) : s.scheduler.scopes = [] := by
  refine List.eq_nil_iff_forall_not_mem.2 fun scope hm => ?_
  obtain ⟨i, -, hmark⟩ := State.mem_scopes.1 hm
  cases h.unlisted true (List.mem_of_getElem? hmark)

/-- **A call that shuts down and waits leaves nothing behind**, if all other calls that did so have
returned. -/
theorem still_of_joined (h : Accounted s) (hf : Flagged s) {loops : List Nat}
    (hc : s.calls[c]? = some (.awaiting loops)) (he : ∀ i ∈ loops, s.stage i = .ended)
    (alone : ∀ d, .joining d ∈ s.log → d = c ∨ .joined d ∈ s.log) : Still (s.leave c) where
  shuttingDown := hf.called fun hnil => by simp [hnil] at hc
  unlisted := h.taken c _ hc (by simp)
  ended i := by
    by_contra hi
    rcases h.awaited i hi with hmark | ⟨d, loops', hd, hm⟩
    · cases h.taken c _ hc (by simp) true (List.mem_of_getElem? hmark)
    · have hlog := (h.entered d).2 (List.getElem?_eq_some_iff.1 hd).1
      rcases alone d hlog with rfl | hret
      · -- the call itself waits for the loop
        cases hc.symm.trans hd
        exact hi (he i hm)
      · cases ((h.returned d).1 hret).symm.trans hd

lemma Step.of_joined (step : Step s t) (h : t.log = s.log ++ [.joined c]) :
    ∃ loops, s.calls[c]? = some (.awaiting loops) ∧ (∀ i ∈ loops, s.stage i = .ended) ∧
      t = s.leave c := by
  have hne {e : Event} (ht : t.log = s.log ++ [e]) : e = .joined c := by
    simpa using ht.symm.trans h
  have hlen (ht : t.log = s.log) : False := by simp [ht] at h
  cases step with
  | register interval scope =>
    rcases s.register_cases interval scope with ⟨e, -, he⟩ | ⟨-, -, he⟩
    · cases hne (by rw [he])
    · cases hne (by rw [he])
  | request => cases hne rfl
  | enter => cases hne rfl
  | begin => cases hne rfl
  | finish => cases hne rfl
  | drain | look | hear => exact (hlen rfl).elim
  | leave hc he =>
    cases hne rfl
    exact ⟨_, hc, he, rfl⟩

lemma Reachable.still_after {pre mid post : List Event} (h : Reachable s)
    (hlog : s.log = pre ++ .joining c :: (mid ++ .joined c :: post))
    (hpre : ∀ d, .joining d ∈ pre → .joined d ∈ pre) (hmid : ∀ d, .joining d ∉ mid) :
    Still s ∧ ∀ ns, .began ns ∉ post := by
  rw [← List.cons_append, ← List.append_assoc] at hlog
  obtain ⟨u, v, hu, hulog, step, hv, hvs⟩ := Run.split h rfl hlog
  obtain ⟨loops, hc, he, rfl⟩ := step.of_joined (c := c) (by rw [hv, hulog])
  have hstill : Still (u.leave c) := by
    refine still_of_joined (accounted_of_run accounted_new sound_new hu)
      (sound_of_run sound_new hu).flagged hc he fun d hd => ?_
    rw [hulog, List.mem_append, List.mem_cons, Event.joining.injEq] at hd
    rcases hd with hd | hd | hd
    · exact .inr (hulog ▸ List.mem_append_left _ (hpre d hd))
    · exact .inl hd
    · exact (hmid d hd).elim
  obtain ⟨hs, hcount⟩ := still_of_run hstill hvs
  refine ⟨hs, fun ns hm => ?_⟩
  -- another run would have been counted
  have hpos := List.count_pos_iff.2 hm
  have heq := hcount ns
  rw [hlog, hv, List.append_cons, List.count_append] at heq
  omega

/-! ### Good order -/

/-- Good order, as it holds at any moment. -/
structure Orderly (s : State) : Prop where
  /-- Each scope that was registered has one loop. -/
  loops : s.names.Nodup ∧ ∀ scope, scope ∈ s.names ↔ .registered scope ∈ s.log
  /-- Until a shutdown is requested the scopes are those that were registered. -/
  listed : (∀ e ∈ s.log, e.requests = false) → ∀ scope,
    scope ∈ s.scheduler.scopes ↔ .registered scope ∈ s.log
  /-- What can be registered: at an interval, before a shutdown, and once. -/
  accepts : ∀ interval scope, (∃ u, s.scheduler.register true interval scope = .ok u) ↔
    interval ≠ 0 ∧ (∀ e ∈ s.log, e.requests = false) ∧ scope ∉ s.scheduler.scopes
  /-- A call that is refused changes nothing. -/
  refuses : ∀ interval scope e, s.scheduler.register true interval scope = .error e →
    s.register interval scope = { s with log := s.log ++ [.refused scope e] }
  /-- The runs of a scope do not overlap. -/
  apart : ∀ (ns : String) (pre : List Event), pre <+: s.log →
    pre.count (.finished ns) ≤ pre.count (.began ns) ∧
      pre.count (.began ns) ≤ pre.count (.finished ns) + 1
  /-- A run goes on until its handler comes to its end, which it may do at any time. -/
  undisturbed : ∀ i, s.stage i = .running →
    (∃ l, s.scheduler.loops[i]? = some l ∧ ∀ busy, Step s (s.finish i l busy)) ∧
      ∀ t, Step s t → t.stage i = .running ∨
        ∃ l busy, s.scheduler.loops[i]? = some l ∧ t = s.finish i l busy
  /-- After a request each scope begins one more run at most. -/
  last : ∀ (pre post : List Event) (e : Event), s.log = pre ++ e :: post → e.requests = true →
    ∀ ns, post.count (.began ns) ≤ 1
  /-- After a call that shuts down and waits, and that no other such call overlaps, no run begins
  or is under way, and no scope is listed or can be registered. -/
  still : ∀ (pre mid post : List Event) (c : Nat),
    s.log = pre ++ .joining c :: (mid ++ .joined c :: post) →
    (∀ d, .joining d ∈ pre → .joined d ∈ pre) → (∀ d, .joining d ∉ mid) →
    (∀ ns, .began ns ∉ post) ∧ (∀ i, s.stage i ≠ .running) ∧ s.scheduler.scopes = [] ∧
      ∀ interval scope, ∃ e, s.scheduler.register true interval scope = .error e

/-- **Loops keep order**, whatever the order in which callers, timers, handlers and loops take
their steps. -/
theorem loops_orderly (h : Reachable s) : Orderly s where
  loops := ⟨(sound_of_run sound_new h).nodup, fun scope => h.registered⟩
  listed hno scope := by
    have hs := sound_of_run sound_new h
    have hidle := hs.flagged.not_requested.2 hno
    rw [← h.registered]
    refine ⟨fun hm => ?_, fun hm => ?_⟩
    · obtain ⟨i, hi, -⟩ := State.mem_scopes.1 hm
      exact List.mem_of_getElem? hi
    · by_contra hn
      exact hs.not_mem_names hidle hn hm
  accepts interval scope := by
    have hs := sound_of_run sound_new h
    simp only [Scheduler.register_eq_ok_iff, exists_and_left, exists_eq, and_true,
      Scheduler.refusal?_eq_none_iff, hs.flagged.not_requested]
  refuses interval scope e he := by
    unfold State.register
    rw [he]
  apart ns pre hpre := by
    obtain ⟨u, hu, rfl⟩ := h.of_prefix hpre
    exact (sound_of_run sound_new hu).counts ns
  undisturbed i hr := (sound_of_run sound_new h).undisturbed hr
  last pre post e hlog hreq ns := h.begun_after hlog hreq ns
  still pre mid post c hlog hpre hmid := by
    obtain ⟨hs, hpost⟩ := h.still_after hlog hpre hmid
    refine ⟨hpost, fun i => by simp [hs.ended i], hs.scopes, fun interval scope => ?_⟩
    obtain ⟨e, he, -⟩ := State.register_of_shuttingDown hs.shuttingDown interval scope
    exact ⟨e, he⟩

/-- A timer fires between the request of a call that shuts down and its return, and the loop begins
the one further run. -/
theorem loops_orderly_furtherRun : ∃ s, Reachable s ∧ Orderly s ∧
    s.log = [.registered "mail", .began "mail", .finished "mail", .joining 0, .began "mail",
      .finished "mail", .joined 0] := by
  have accepted : State.register {} 10 "mail" =
      { scheduler := { loops := [{ scope := "mail", interval := 10 }] }
        stage := Function.update (fun _ => .ended) 0 .looking
        heard := Function.update (fun _ => 0) 0 0
        log := [.registered "mail"] } := by
    simp [State.register, Scheduler.register, Scheduler.refusal?, Scheduler.scopes]
  have registered := Relation.ReflTransGen.single (Step.register (s := {}) 10 "mail")
  rw [accepted] at registered
  have waiting := registered.tail (.look (i := 0) rfl)
  have running := waiting.tail (.begin (i := 0) rfl rfl 0)
  have finished := running.tail (.finish (i := 0) rfl rfl 3)
  have again := finished.tail (.look (i := 0) rfl)
  have joining := again.tail .enter
  have further := joining.tail (.begin (i := 0) rfl rfl 10)
  have awaiting := further.tail (.drain (c := 0) rfl)
  have ended := (awaiting.tail (.finish (i := 0) rfl rfl 3)).tail (.look (i := 0) rfl)
  have joined := ended.tail (.leave (c := 0) rfl fun i hi => by
    rw [List.mem_singleton.1 hi]
    rfl)
  exact ⟨_, joined, loops_orderly joined, rfl⟩

end MailQueue.Loops

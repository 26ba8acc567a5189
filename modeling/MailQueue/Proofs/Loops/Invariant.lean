import MailQueue.Proofs.Loops.Basic
import Mathlib.Data.List.Nodup

/-!
# What holds of loops at any moment

* `State.register_cases` says what a call that registers a loop can do;
* `Sound` relates the scopes of the loops, the flag of a shutdown and the record of the runs, and
  `sound_of_run` shows it of whatever can be reached;
* `Accounted` does so for the calls that shut down and wait: a loop that has not ended is listed, or
  one of the calls waits for it.
-/

namespace MailQueue

namespace Scheduler

variable {s : Scheduler} {interval : Nat} {scope : String}

lemma mem_scopes : scope ∈ s.scopes ↔ ∃ l ∈ s.loops, l.registered = true ∧ l.scope = scope := by
  simp [scopes, and_assoc]

lemma refusal?_eq_none_iff : s.refusal? true interval scope = none ↔
    interval ≠ 0 ∧ s.shuttingDown = false ∧ scope ∉ s.scopes := by
  unfold refusal?
  by_cases hms : interval = 0
  · simp [hms]
  · cases hs : s.shuttingDown <;> by_cases hm : scope ∈ s.scopes <;> simp [hms, hm]

end Scheduler

namespace Loops

variable {s t : State} {i c : Nat} {l : TickLoop} {ns : String}

/-! ### What the steps do -/

lemma map_set_of_eq {α β : Type} {f : α → β} {as : List α} {a b : α} (ha : as[i]? = some a)
    (h : f b = f a) : (as.set i b).map f = as.map f := by
  have hf : (as.map f)[i]? = some (f b) := by rw [List.getElem?_map, ha, h]; rfl
  obtain ⟨hlt, hget⟩ := List.getElem?_eq_some_iff.1 hf
  rw [List.map_set, ← hget]
  exact List.set_getElem_self hlt

namespace State

@[simp] lemma names_request : s.request.names = s.names := by
  simp [names, request, Scheduler.requestShutdown]

@[simp] lemma names_enter : s.enter.names = s.names := by
  simp [names, enter, Scheduler.requestShutdown]

@[simp] lemma names_drain : (s.drain c).names = s.names := by
  simp [names, drain, Scheduler.shutdown]

lemma names_begin (hl : s.scheduler.loops[i]? = some l) (time : Nat) :
    (s.begin i l time).names = s.names := map_set_of_eq hl rfl

lemma names_finish (hl : s.scheduler.loops[i]? = some l) (busy : Nat) :
    (s.finish i l busy).names = s.names := map_set_of_eq hl rfl

@[simp] lemma marks_request : s.request.marks = s.marks := by
  simp [marks, request, Scheduler.requestShutdown]

@[simp] lemma marks_enter : s.enter.marks = s.marks := by
  simp [marks, enter, Scheduler.requestShutdown]

@[simp] lemma marks_drain : (s.drain c).marks = s.marks.map fun _ => false := by
  simp [marks, drain, Scheduler.shutdown, Function.comp_def]

lemma marks_begin (hl : s.scheduler.loops[i]? = some l) (time : Nat) :
    (s.begin i l time).marks = s.marks := map_set_of_eq hl rfl

lemma marks_finish (hl : s.scheduler.loops[i]? = some l) (busy : Nat) :
    (s.finish i l busy).marks = s.marks := map_set_of_eq hl rfl

lemma length_marks : s.marks.length = s.names.length := by simp [marks, names]

lemma name_of_getElem? (hl : s.scheduler.loops[i]? = some l) : s.names[i]? = some l.scope := by
  simp [names, hl]

lemma mem_scopes : ns ∈ s.scheduler.scopes ↔
    ∃ i : Nat, s.names[i]? = some ns ∧ s.marks[i]? = some true := by
  rw [Scheduler.mem_scopes]
  constructor
  · rintro ⟨l, hl, hr, rfl⟩
    obtain ⟨i, hi⟩ := List.getElem?_of_mem hl
    exact ⟨i, by simp [names, hi], by simp [marks, hi, hr]⟩
  · rintro ⟨i, hn, hm⟩
    simp only [names, marks, List.getElem?_map, Option.map_eq_some_iff] at hn hm
    obtain ⟨l, hl, hs⟩ := hn
    obtain ⟨l', hl', hr⟩ := hm
    obtain rfl := Option.some.inj (hl.symm.trans hl')
    exact ⟨l, List.mem_of_getElem? hl, hr, hs⟩

lemma mem_listed : i ∈ s.listed ↔ s.marks[i]? = some true := by
  simp only [listed, List.mem_filter, List.mem_range, beq_iff_eq, and_iff_right_iff_imp]
  intro h
  exact (List.getElem?_eq_some_iff.1 h).1

/-- **A call that registers a loop** is refused and only recorded, or adds the loop. -/
lemma register_cases (s : State) (interval : Nat) (scope : String) :
    (∃ e, s.scheduler.register true interval scope = .error e ∧
      s.register interval scope = { s with log := s.log ++ [.refused scope e] }) ∨
    (s.scheduler.shuttingDown = false ∧ scope ∉ s.scheduler.scopes ∧
      s.register interval scope =
        { s with
          scheduler := { s.scheduler with
            loops := s.scheduler.loops ++ [{ scope := scope, interval := interval }] }
          stage := Function.update s.stage s.scheduler.loops.length .looking
          heard := Function.update s.heard s.scheduler.loops.length s.requests
          log := s.log ++ [.registered scope] }) := by
  unfold register
  rcases h : s.scheduler.register true interval scope with e | scheduler
  · exact .inl ⟨e, rfl, rfl⟩
  · obtain ⟨hno, rfl⟩ := Scheduler.register_eq_ok_iff.1 h
    obtain ⟨-, hs, hm⟩ := Scheduler.refusal?_eq_none_iff.1 hno
    exact .inr ⟨hs, hm, rfl⟩

lemma register_of_shuttingDown (h : s.scheduler.shuttingDown = true) (interval : Nat)
    (scope : String) : ∃ e, s.scheduler.register true interval scope = .error e ∧
      s.register interval scope = { s with log := s.log ++ [.refused scope e] } := by
  rcases s.register_cases interval scope with hrefused | ⟨hidle, -, -⟩
  · exact hrefused
  · rw [h] at hidle
    cases hidle

end State

/-! ### The flag -/

/-- What holds, at any moment, of the flag of a shutdown. -/
structure Flagged (s : State) : Prop where
  /-- It is set if and only if a shutdown was requested. -/
  flag : s.scheduler.shuttingDown = s.log.any Event.requests
  /-- Before that all loops are listed. -/
  listed : s.scheduler.shuttingDown = false → ∀ b ∈ s.marks, b = true
  /-- Whoever waits for the loops has requested it. -/
  called : s.calls ≠ [] → s.scheduler.shuttingDown = true

lemma Flagged.step (h : Flagged s) (step : Step s t) : Flagged t := by
  cases step with
  | register interval scope =>
    rcases s.register_cases interval scope with ⟨e, -, he⟩ | ⟨hs, -, he⟩ <;> rw [he]
    · exact ⟨by simpa [Event.requests] using h.flag, h.listed, h.called⟩
    · refine ⟨by simpa [Event.requests] using h.flag, fun _ b hb => ?_, h.called⟩
      simp only [State.marks, List.map_append, List.mem_append, List.map_cons, List.map_nil,
        List.mem_singleton] at hb
      exact hb.elim (h.listed hs b) id
  | request =>
    refine ⟨?_, (fun hs => by cases hs), fun _ => rfl⟩
    simp [State.request, Scheduler.requestShutdown, Event.requests]
  | enter =>
    refine ⟨?_, (fun hs => by cases hs), fun _ => rfl⟩
    simp [State.enter, Scheduler.requestShutdown, Event.requests]
  | drain hc =>
    have hs : s.scheduler.shuttingDown = true := h.called fun hnil => by simp [hnil] at hc
    refine ⟨?_, (fun hs => by cases hs), fun _ => rfl⟩
    show true = s.log.any Event.requests
    rw [← h.flag, hs]
  | leave hc =>
    refine ⟨by simpa [State.leave, Event.requests] using h.flag, h.listed, fun _ => ?_⟩
    exact h.called fun hnil => by simp [hnil] at hc
  | look | hear => exact ⟨h.flag, h.listed, h.called⟩
  | begin hl _ time =>
    refine ⟨?_, ?_, h.called⟩
    · simpa [State.begin, State.setLoop, Event.requests] using h.flag
    · rw [State.marks_begin hl]
      exact h.listed
  | finish hl _ busy =>
    refine ⟨?_, ?_, h.called⟩
    · simpa [State.finish, State.setLoop, Event.requests] using h.flag
    · rw [State.marks_finish hl]
      exact h.listed

/-! ### Loops and runs -/

/-- What holds, at any moment, of the loops and of the record of their runs. -/
structure Sound (s : State) : Prop where
  flagged : Flagged s
  nodup : s.names.Nodup
  /-- Only a loop that there is does anything. -/
  there : ∀ i, s.stage i ≠ .ended → i < s.names.length
  /-- A handler has come to its end as often as it has begun, but for the run under way. -/
  balance : ∀ (i : Nat) (ns : String), s.names[i]? = some ns →
    s.log.count (.began ns) =
      s.log.count (.finished ns) + if s.stage i = .running then 1 else 0
  /-- A scope without a loop has no runs. -/
  absent : ∀ ns, ns ∉ s.names →
    s.log.count (.began ns) = 0 ∧ s.log.count (.finished ns) = 0

lemma sound_new : Sound {} where
  flagged := ⟨rfl, by simp [State.marks], by simp⟩
  nodup := List.nodup_nil
  there i h := (h rfl).elim
  balance := by simp [State.names]
  absent := by simp

/-- A scope has one run under way at most. -/
lemma Sound.counts (h : Sound s) (ns : String) :
    s.log.count (.finished ns) ≤ s.log.count (.began ns) ∧
      s.log.count (.began ns) ≤ s.log.count (.finished ns) + 1 := by
  by_cases hm : ns ∈ s.names
  · obtain ⟨i, hi⟩ := List.getElem?_of_mem hm
    have hbal := h.balance i ns hi
    split at hbal <;> omega
  · obtain ⟨hb, hf⟩ := h.absent ns hm
    omega

lemma Sound.ne_of_ne (h : Sound s) {j : Nat} {ns' : String} (hi : s.names[i]? = some ns)
    (hj : s.names[j]? = some ns') (hne : i ≠ j) : ns ≠ ns' := by
  rintro rfl
  obtain ⟨hlt, hni⟩ := List.getElem?_eq_some_iff.1 hi
  obtain ⟨hlt', hnj⟩ := List.getElem?_eq_some_iff.1 hj
  exact hne ((h.nodup.getElem_inj_iff).1 (hni.trans hnj.symm))

/-- A scope that is free was never taken, as long as no shutdown was requested. -/
lemma Sound.not_mem_names (h : Sound s) (hs : s.scheduler.shuttingDown = false)
    (hn : ns ∉ s.scheduler.scopes) : ns ∉ s.names := by
  intro hm
  obtain ⟨i, hi⟩ := List.getElem?_of_mem hm
  have hlt : i < s.marks.length := by
    rw [State.length_marks]
    exact (List.getElem?_eq_some_iff.1 hi).1
  have hmark : s.marks[i]? = some true := by
    rw [List.getElem?_eq_getElem hlt, h.flagged.listed hs _ (List.getElem_mem _)]
  exact hn (State.mem_scopes.2 ⟨i, hi, hmark⟩)

lemma Sound.of_quiet (h : Sound s) (hf : Flagged t) (hn : t.names = s.names)
    (hst : t.stage = s.stage) (hlog : ∀ ns, t.log.count (.began ns) = s.log.count (.began ns) ∧
      t.log.count (.finished ns) = s.log.count (.finished ns)) : Sound t where
  flagged := hf
  nodup := hn ▸ h.nodup
  there := by rw [hn, hst]; exact h.there
  balance i ns hi := by
    rw [(hlog ns).1, (hlog ns).2, hst]
    exact h.balance i ns (hn ▸ hi)
  absent ns hns := by
    rw [(hlog ns).1, (hlog ns).2]
    exact h.absent ns (hn ▸ hns)

lemma Sound.of_turn (h : Sound s) {stage : Stage} (hi : s.stage i ≠ .ended)
    (hr : s.stage i ≠ .running) (hr' : stage ≠ .running) {heard : Nat → Nat} :
    Sound { s with stage := Function.update s.stage i stage, heard := heard } where
  flagged := ⟨h.flagged.flag, h.flagged.listed, h.flagged.called⟩
  nodup := h.nodup
  there j hj := by
    by_cases hij : j = i
    · exact hij ▸ h.there i hi
    · exact h.there j (by simpa [hij] using hj)
  balance j ns hj := by
    rw [h.balance j ns hj]
    by_cases hij : j = i
    · subst hij
      simp [hr, hr']
    · simp [hij]
  absent := h.absent

lemma Sound.register (h : Sound s) (interval : Nat) (scope : String) :
    Sound (s.register interval scope) := by
  have hf := h.flagged.step (.register interval scope)
  rcases s.register_cases interval scope with ⟨e, -, he⟩ | ⟨hs, hm, he⟩ <;> rw [he] at hf ⊢
  · exact h.of_quiet hf rfl rfl fun ns => by simp
  · have hnew := h.not_mem_names hs hm
    have hnames (x : State) (hx : x.scheduler.loops = s.scheduler.loops ++
        [{ scope := scope, interval := interval }]) : x.names = s.names ++ [scope] := by
      simp [State.names, hx]
    have hlen : s.scheduler.loops.length = s.names.length := by simp [State.names]
    refine ⟨hf, ?_, fun i hi => ?_, fun i ns hi => ?_, fun ns hns => ?_⟩
    · rw [hnames _ rfl]
      exact List.nodup_append.2 ⟨h.nodup, by simp, by rintro a ha b hb rfl; simp_all⟩
    · rw [hnames _ rfl, List.length_append, List.length_singleton]
      by_cases hin : i = s.scheduler.loops.length
      · omega
      · have hold := h.there i (by simpa [hin] using hi)
        omega
    · rw [hnames _ rfl] at hi
      simp only [List.count_append]
      rcases Nat.lt_trichotomy i s.names.length with hlt | rfl | hgt
      · rw [List.getElem?_append_left hlt] at hi
        have hne : i ≠ s.scheduler.loops.length := by omega
        simpa [hne] using h.balance i ns hi
      · -- the new loop has not run yet
        rw [List.getElem?_append_right (Nat.le_refl _), Nat.sub_self] at hi
        obtain rfl := Option.some.inj hi
        obtain ⟨hb, hf⟩ := h.absent _ hnew
        simp [hb, hf, ← hlen]
      · rw [List.getElem?_eq_none (by simp; omega)] at hi
        cases hi
    · rw [hnames _ rfl, List.mem_append, not_or] at hns
      simpa using h.absent ns hns.1

/-- A loop that begins or ends a run: `delta` counts how often it has begun and come to its end. -/
lemma Sound.of_run (h : Sound s) (hf : Flagged t) (hi : s.names[i]? = some ns)
    (hn : t.names = s.names) {stage : Stage} (hst : t.stage = Function.update s.stage i stage)
    (hend : s.stage i ≠ .ended)
    (hself : t.log.count (.began ns) =
      t.log.count (.finished ns) + if stage = .running then 1 else 0)
    (hother : ∀ ns', ns ≠ ns' → t.log.count (.began ns') = s.log.count (.began ns') ∧
      t.log.count (.finished ns') = s.log.count (.finished ns')) : Sound t where
  flagged := hf
  nodup := hn ▸ h.nodup
  there j hj := by
    rw [hn]
    by_cases hij : j = i
    · exact hij ▸ h.there i hend
    · exact h.there j (by simpa [hst, hij] using hj)
  balance j ns' hj := by
    rw [hn] at hj
    by_cases hij : j = i
    · subst hij
      obtain rfl := Option.some.inj (hi.symm.trans hj)
      simpa [hst] using hself
    · have hne := h.ne_of_ne hi hj (Ne.symm hij)
      rw [(hother ns' hne).1, (hother ns' hne).2, hst, Function.update_of_ne hij]
      exact h.balance j ns' hj
  absent ns' hns := by
    rw [hn] at hns
    have hne : ns ≠ ns' := fun he => hns (he ▸ List.mem_of_getElem? hi)
    rw [(hother ns' hne).1, (hother ns' hne).2]
    exact h.absent ns' hns

lemma Sound.begin (h : Sound s) (hl : s.scheduler.loops[i]? = some l)
    (hw : s.stage i = .waiting) (time : Nat) : Sound (s.begin i l time) := by
  have hi := State.name_of_getElem? hl
  have hbal := h.balance i _ hi
  simp only [hw, reduceCtorEq, if_false] at hbal
  refine h.of_run (h.flagged.step (.begin hl hw time)) hi (State.names_begin hl time) rfl
    (by simp [hw]) ?_ fun ns' hne => ?_
  · simp [State.begin, hbal]
  · simp [State.begin, hne]

lemma Sound.finish (h : Sound s) (hl : s.scheduler.loops[i]? = some l)
    (hr : s.stage i = .running) (busy : Nat) : Sound (s.finish i l busy) := by
  have hi := State.name_of_getElem? hl
  have hbal := h.balance i _ hi
  simp only [hr, if_true] at hbal
  refine h.of_run (h.flagged.step (.finish hl hr busy)) hi (State.names_finish hl busy) rfl
    (by simp [hr]) ?_ fun ns' hne => ?_
  · simp [State.finish, hbal]
  · simp [State.finish, hne]

lemma Sound.step (h : Sound s) (step : Step s t) : Sound t := by
  have hf := h.flagged.step step
  cases step with
  | register interval scope => exact h.register interval scope
  | request => exact h.of_quiet hf State.names_request rfl fun ns => by simp [State.request]
  | enter => exact h.of_quiet hf State.names_enter rfl fun ns => by simp [State.enter]
  | drain => exact h.of_quiet hf State.names_drain rfl fun ns => ⟨rfl, rfl⟩
  | leave => exact h.of_quiet hf rfl rfl fun ns => by simp [State.leave]
  | look hl =>
    refine h.of_turn (by simp [hl]) (by simp [hl]) ?_
    split <;> simp
  | hear hw => exact h.of_turn (by simp [hw]) (by simp [hw]) (by simp)
  | begin hl hw time => exact h.begin hl hw time
  | finish hl hr busy => exact h.finish hl hr busy

/-- **The loops and the record of their runs agree**, whatever the order of the steps. -/
theorem sound_of_run (h : Sound s) (hrun : Run s t) : Sound t := by
  induction hrun with
  | refl => exact h
  | tail _ step ih => exact ih.step step

/-! ### Calls that wait -/

/-- What holds, at any moment, of the calls that shut down and wait. -/
structure Accounted (s : State) : Prop where
  entered : ∀ c, .joining c ∈ s.log ↔ c < s.calls.length
  returned : ∀ c, .joined c ∈ s.log ↔ s.calls[c]? = some .returned
  /-- Once a call has taken the loops, no loop is listed. -/
  taken : ∀ (c : Nat) (call : Call), s.calls[c]? = some call → call ≠ .entered →
    ∀ b ∈ s.marks, b = false
  /-- A loop that has not ended is listed, or a call waits for it. -/
  awaited : ∀ i, s.stage i ≠ .ended → s.marks[i]? = some true ∨
    ∃ (c : Nat) (loops : List Nat), s.calls[c]? = some (.awaiting loops) ∧ i ∈ loops

lemma accounted_new : Accounted {} where
  entered := by simp
  returned := by simp
  taken := by simp
  awaited i h := (h rfl).elim

lemma Accounted.of_quiet (h : Accounted s) (hc : t.calls = s.calls) (hm : t.marks = s.marks)
    (hst : ∀ i, t.stage i ≠ .ended → s.stage i ≠ .ended)
    (hlog : ∀ c, (.joining c ∈ t.log ↔ .joining c ∈ s.log) ∧
      (.joined c ∈ t.log ↔ .joined c ∈ s.log)) : Accounted t where
  entered c := by rw [(hlog c).1, hc]; exact h.entered c
  returned c := by rw [(hlog c).2, hc]; exact h.returned c
  taken := by rw [hc, hm]; exact h.taken
  awaited i hi := by rw [hc, hm]; exact h.awaited i (hst i hi)

lemma Accounted.of_turn (h : Accounted s) {stage : Stage} (hc : t.calls = s.calls)
    (hm : t.marks = s.marks) (hst : t.stage = Function.update s.stage i stage)
    (hi : s.stage i ≠ .ended)
    (hlog : ∀ c, (.joining c ∈ t.log ↔ .joining c ∈ s.log) ∧
      (.joined c ∈ t.log ↔ .joined c ∈ s.log)) : Accounted t := by
  refine h.of_quiet hc hm (fun j hj => ?_) hlog
  by_cases hji : j = i
  · exact hji ▸ hi
  · simpa [hst, hji] using hj

lemma Accounted.register (h : Accounted s) (hf : Flagged s) (interval : Nat) (scope : String) :
    Accounted (s.register interval scope) := by
  rcases s.register_cases interval scope with ⟨e, -, he⟩ | ⟨hs, -, he⟩ <;> rw [he]
  · exact h.of_quiet rfl rfl (fun _ hi => hi) fun c => by simp
  · have hnone : s.calls = [] := by
      by_contra hne
      simp [hf.called hne] at hs
    have hlen : s.marks.length = s.scheduler.loops.length := by simp [State.marks]
    refine ⟨fun c => ?_, fun c => ?_, fun c call hc => ?_, fun i hi => .inl ?_⟩
    · simpa using h.entered c
    · simpa using h.returned c
    · simp [hnone] at hc
    · simp only [State.marks, List.map_append, List.map_cons, List.map_nil]
      by_cases hin : i = s.scheduler.loops.length
      · simp [hin]
      · -- no call waits for an older loop, so it is listed
        rcases h.awaited i (by simpa [hin] using hi) with hmark | ⟨c, loops, hc, -⟩
        · exact List.getElem?_append_left (List.getElem?_eq_some_iff.1 hmark).1 ▸ hmark
        · simp [hnone] at hc

lemma Accounted.enter (h : Accounted s) : Accounted s.enter where
  entered c := by
    simp [State.enter, h.entered c]
    omega
  returned c := by
    simp only [State.enter, List.mem_append, List.mem_singleton, reduceCtorEq, or_false,
      h.returned c, List.getElem?_append]
    split
    · rfl
    · rw [List.getElem?_eq_none (by omega)]
      simp [List.getElem?_singleton]
  taken c call hc hne := by
    rw [State.marks_enter]
    simp only [State.enter, List.getElem?_append] at hc
    split at hc
    · exact h.taken c call hc hne
    · simp only [List.getElem?_singleton] at hc
      split at hc
      · exact (hne (Option.some.inj hc).symm).elim
      · cases hc
  awaited i hi := by
    rw [State.marks_enter]
    refine (h.awaited i hi).imp_right fun ⟨c, loops, hc, hm⟩ => ⟨c, loops, ?_, hm⟩
    exact (List.getElem?_append_left (List.getElem?_eq_some_iff.1 hc).1).trans hc

lemma Accounted.drain (h : Accounted s) (hc : s.calls[c]? = some .entered) :
    Accounted (s.drain c) where
  entered d := by simp [State.drain, h.entered d]
  returned d := by
    simp only [State.drain, h.returned d, List.getElem?_set]
    split <;> simp_all
  taken _ _ _ _ := by simp
  awaited i hi := by
    refine .inr ?_
    rcases h.awaited i hi with hmark | ⟨d, loops, hd, hm⟩
    · refine ⟨c, s.listed, ?_, State.mem_listed.2 hmark⟩
      simp [State.drain, (List.getElem?_eq_some_iff.1 hc).1]
    · have hne : c ≠ d := by
        rintro rfl
        cases hc.symm.trans hd
      exact ⟨d, loops, by simpa [State.drain, hne] using hd, hm⟩

lemma Accounted.leave (h : Accounted s) {loops : List Nat}
    (hc : s.calls[c]? = some (.awaiting loops)) (he : ∀ i ∈ loops, s.stage i = .ended) :
    Accounted (s.leave c) where
  entered d := by simp [State.leave, h.entered d]
  returned d := by
    have hlt := (List.getElem?_eq_some_iff.1 hc).1
    simp only [State.leave, List.mem_append, List.mem_singleton, Event.joined.injEq,
      h.returned d, List.getElem?_set]
    by_cases hcd : c = d
    · simp [hcd, hcd ▸ hlt]
    · simp [hcd, Ne.symm hcd]
  taken d call hd hne := by
    simp only [State.leave, List.getElem?_set] at hd
    split at hd
    · exact h.taken c _ hc (by simp)
    · exact h.taken d call hd hne
  awaited i hi := by
    refine (h.awaited i hi).imp_right fun ⟨d, loops', hd, hm⟩ => ⟨d, loops', ?_, hm⟩
    have hne : c ≠ d := by
      rintro rfl
      cases hc.symm.trans hd
      exact hi (he i hm)
    simpa [State.leave, hne] using hd

lemma Accounted.step (h : Accounted s) (hf : Flagged s) (step : Step s t) : Accounted t := by
  cases step with
  | register interval scope => exact h.register hf interval scope
  | request =>
    exact h.of_quiet rfl State.marks_request (fun _ hi => hi) fun c => by simp [State.request]
  | enter => exact h.enter
  | drain hc => exact h.drain hc
  | leave hc he => exact h.leave hc he
  | look hl => exact h.of_turn rfl rfl rfl (by simp [hl]) fun c => ⟨Iff.rfl, Iff.rfl⟩
  | hear hw => exact h.of_turn rfl rfl rfl (by simp [hw]) fun c => ⟨Iff.rfl, Iff.rfl⟩
  | begin hl hw time =>
    exact h.of_turn rfl (State.marks_begin hl time) rfl (by simp [hw]) fun c => by
      simp [State.begin]
  | finish hl hr busy =>
    exact h.of_turn rfl (State.marks_finish hl busy) rfl (by simp [hr]) fun c => by
      simp [State.finish]

/-- **Whoever shuts down and waits has all loops accounted for**, whatever the order of the
steps. -/
theorem accounted_of_run (h : Accounted s) (hs : Sound s) (hrun : Run s t) : Accounted t := by
  induction hrun with
  | refl => exact h
  | tail hrun step ih => exact ih.step (sound_of_run hs hrun).flagged step

end Loops

end MailQueue

import MailQueue.Proofs.Equivalence
import MailQueue.Proofs.Fleet.Handover
import MailQueue.Proofs.Fleet.Placement

/-!
# Mails that travel together

Requests join tasks side by side. Each of them looks a task up and writes back a longer list later,
under the condition that the number of mails is still the same; who loses the race looks again.

* `varied`: no two mails of a task are to the same effect;
* `Merged` gathers what holds of the mails of all tasks, and `mails_merge` shows it of each state
  that can be reached.
-/

namespace MailQueue.Fleet

open Queue Interleaving

variable {f : Fleet} {s t : State} {id : TaskId} {u v : Task}

/-! ### No mail twice -/

/-- No mail is to the same effect as one before it. -/
def Varied (l : List Mail) : Prop := l.Pairwise fun a b => a.equivalent b = false

lemma Varied.append {l : List Mail} (h : Varied l) {m : Mail}
    (hm : ∀ a ∈ l, a.equivalent m = false) : Varied (l ++ [m]) := by
  refine List.pairwise_append.2 ⟨h, List.pairwise_singleton _ _, fun a ha b hb => ?_⟩
  rw [List.mem_singleton.1 hb]
  exact hm a ha

lemma Change.varied (h : f.Reachable s) {n : Nat} {j : Job} {x : Exchange}
    (ch : Change f s n j id x (some v)) (ih : ∀ u, stored s id = some u → Varied u.fragments) :
    Varied v.fragments := by
  generalize ho : some v = o at ch
  cases ch with
  | still => exact ih v ho.symm
  | born =>
    obtain rfl := Option.some.inj ho
    exact List.pairwise_singleton _ _
  | @joined r t u w rounds hj ht hd hu hopen hat hl =>
    obtain rfl := Option.some.inj ho
    subst ht
    obtain ⟨clock, hr⟩ := h
    have hnew := (Intake.found_of_joining hd).2
    have heq := fragments_of_joining hr rfl (distinct_first f clock) hd
      (fun b hb u hu v hv => prefix_of_mem_log ⟨clock, hr⟩ hb hu hv) hu hl
    have hvar : Varied t.fragments := heq ▸ ih u hu
    exact hvar.append hnew
  | withdrawn hj hu =>
    have hvar := ih _ hu
    split at ho
    · obtain rfl := Option.some.inj ho
      exact hvar
    · cases ho
  | taken hj ht hp hu =>
    have hvar := ih _ hu
    obtain rfl := Option.some.inj ho
    exact hvar
  | ended hj ht hd he =>
    cases he with
    | removed | dropped => cases ho
    | putBack _ _ _ hu | gaveUp _ hu =>
      have hvar := ih _ hu
      obtain rfl := Option.some.inj ho
      exact hvar

/-- **No two mails of a task are to the same effect.** -/
theorem varied (h : f.Reachable s) (hu : stored s id = some u) : Varied u.fragments := by
  obtain ⟨clock, hr⟩ := h
  have key : ∀ u, stored s id = some u → Varied u.fragments := by
    refine run_view (P := fun m _ _ => ∀ u, m.get? id = some u → Varied u.fragments)
      (by simp [first, storeOf, Memory.get?]) ?_ hr
    intro s n j q next a y hs asks ha ih v hv
    have ch := change hs rfl asks ha id
    rw [hv] at ch
    exact ch.varied ⟨clock, hs⟩ ih
  exact key u hu

/-- For mails that a program can hold it does not matter which of them came first. -/
lemma Varied.both {l : List Mail} (h : Varied l) :
    l.Pairwise fun a b => a.equivalent b = false ∧
      (a.Lawful → b.Lawful → b.equivalent a = false) := by
  refine h.imp fun {a b} hab => ⟨hab, fun ha hb => ?_⟩
  by_contra hba
  rw [Mail.equivalent_symm hb ha (by simpa using hba)] at hab
  cases hab

/-! ### All tasks and requests -/

/-- What holds, at any moment, of the mails of all tasks, if mails are merged. -/
structure Merged (f : Fleet) (s : State) : Prop where
  /-- A step adds one mail to a task, or none. -/
  step : ∀ id t u v, Step f.rules s t → stored s id = some u → stored t id = some v →
    v.fragments = u.fragments ∨ ∃ m, v.fragments = u.fragments ++ [m]
  /-- What a task has more than before is, mail by mail, what was added since. -/
  grown : ∀ id t u v, Run f.rules s t → stored s id = some u → stored t id = some v →
    v.fragments = u.fragments ++
      (t.log.drop s.log.length).filterMap fun e => appended? id e.exchange
  varied : ∀ id u, stored s id = some u → u.fragments.Pairwise fun a b =>
    a.equivalent b = false ∧ (a.Lawful → b.Lawful → b.equivalent a = false)
  /-- A request that has ended with an identifier has joined that task, opened it, or found its mail
  there; a task that it has joined or found was to be sent by the end of its window. -/
  placed : ∀ n i r id, s.threads[n]? = some (⟨⟨i, .enqueue r⟩, .done (.ok id)⟩ : Thread) →
    ∃ t w e, Intake.sendTime? r (s.past n) = some t ∧
      t.add? ((f.config.concat.delayMs.toNat * nsPerMs : Nat) : Int) = some w ∧
      e ∈ s.log ∧ e.thread = n ∧ Placed f r id w (s.past n) e

/-- **Mails that travel together** are neither lost nor sent twice, however the requests race. -/
theorem mails_merge (hc : f.config.concat.enabled = true) (h : f.Reachable s) : Merged f s := by
  refine ⟨fun id t u v step hu hv => ?_, fun id t u v ht hu hv => grown h ht hu hv,
    fun id u hu => (varied h hu).both, fun n i r id hn => ?_⟩
  · have hg := grown h (Run.refl.snoc step) hu hv
    cases step with
    | move | start => exact .inl (by simpa [State.started] using hg)
    | @answer n j q next a x asks ha =>
      have hlog : (s.answered n j q a next x).log = s.log ++ [⟨n, j, q, a, s.shared⟩] := rfl
      rw [hlog, List.drop_left] at hg
      rcases happ : appended? id ⟨q, a⟩ with _ | m
      · exact .inl (by simpa [Entry.exchange, happ] using hg)
      · exact .inr ⟨m, by simpa [Entry.exchange, happ] using hg⟩
  · obtain ⟨clock, hr⟩ := h
    obtain ⟨t, w, pre, e, post, ht, hw, hlog, he, -, hp⟩ :=
      Fleet.placed (stock_first f clock) (distinct_first f clock) hr hn
    rw [Intake.OpensAt, f.shared i, if_pos hc] at hw
    have hadd := Intake.windowEnd_eq_ok hw
    rw [f.shared i] at hadd
    exact ⟨t, w, e, ht, hadd, by rw [hlog]; simp, he, hp⟩

/-- Two requests look one task up and both try to join it; the second has to look again. A third one
finds its mail there. -/
def joinedTwice : List Move :=
  [.start 0 (.enqueue (note "a@x" "one")), .reply 0, .name 0 (.ofNat 1), .reply 0,
    .start 0 (.enqueue (note "a@x" "two")), .start 1 (.enqueue (note "a@x" "three")),
    .reply 1, .reply 2, .reply 1, .reply 2, .reply 2, .reply 2,
    .start 1 (.enqueue (note "a@x" "two")), .reply 3]

theorem mails_merge_joinedTwice : ∃ s u, merging.config.concat.enabled = true ∧
    merging.Reachable s ∧ (List.range 4).map (taskOf? s) = List.replicate 4 (some (.ofNat 1)) ∧
    stored s (.ofNat 1) = some u ∧
    u.fragments.map Mail.text = [some "one", some "two", some "three"] ∧ Merged merging s := by
  have key : ((merging.playAll { shared := merging.first [] .epoch } joinedTwice).any fun s =>
      (List.range 4).map (taskOf? s) == List.replicate 4 (some (.ofNat 1)) &&
        (stored s (.ofNat 1)).any fun u =>
          u.fragments.map Mail.text == [some "one", some "two", some "three"]) = true := by
    decide +kernel
  obtain ⟨s, hs, hv⟩ := (Option.any_eq_true ..).1 key
  obtain ⟨htasks, hv⟩ := (Bool.and_eq_true ..).mp hv
  obtain ⟨u, hu, hmails⟩ := (Option.any_eq_true ..).1 hv
  have hc : merging.config.concat.enabled = true := rfl
  have hreach := reachable_of_playAll hs
  exact ⟨s, u, hc, hreach, eq_of_beq htasks, hu, eq_of_beq hmails, mails_merge hc hreach⟩

end MailQueue.Fleet

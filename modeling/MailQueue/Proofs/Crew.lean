import MailQueue.Crew
import MailQueue.Proofs.Interleaving
import Mathlib.Algebra.Order.BigOperators.Group.List
import Mathlib.Algebra.Order.Group.Multiset
import Mathlib.Algebra.Order.Ring.Nat
import Mathlib.Data.Fintype.Card
import Mathlib.Data.List.FinRange
import Mathlib.Data.Multiset.MapFold
import Mathlib.Tactic.Abel

/-!
# A crew does all of its work

A crew answers the questions of its scout and its hands in an order of its own. Whatever that order
is, what it does is a run of the work on its entries side by side, and when it stops, the work on
each entry has ended. Nothing is said here of what the work is about.

* `Crew.handle` is the whole work on an entry, and `Crew.rules` are the rules by which the entries
  are worked on side by side, in any order;
* `Crew.Reached` says that a run has come to a state in which just these programs are left;
* `Crew.Covers` says that all work that is not done stands in one of a crew's lists, and
  `Crew.Steady` that a free hand means that the scout waits or is through; both hold within a round
  (`Crew.Midway`);
* `Crew.run_complete`: if each run has a bound and there are more rounds than that, a crew brings
  the work on each entry to its end, and its results are those of the entries.
-/

namespace MailQueue

open Interleaving

namespace Crew

variable {Ask : Type} {Answer : Ask → Type} {ι β σ : Type}

/-! ### The work on the entries -/

/-- What is left of an entry that has been looked at: its job, if there is one. -/
def carry : Option (Program Ask Answer β) → Program Ask Answer (Option β)
  | none => .done none
  | some job => job.bind fun b => .done (some b)

def handle (find : ι → Scouting Ask Answer β) (e : ι) : Program Ask Answer (Option β) :=
  (find e).bind carry

/-- The entries are worked on in any order, any number of them at a time, each of them once. -/
def rules (find : ι → Scouting Ask Answer β) (entries : List ι)
    (answers : (q : Ask) → σ → Answer q → σ → Prop) :
    Rules Ask Answer (Fin entries.length) (fun _ => Option β) σ where
  work p := handle find (entries.get p)
  starts s p x := x = s.shared ∧ ∀ th ∈ s.threads, th.job ≠ p
  answers _ q x a y := answers q x a y
  moves _ _ := False

/-- Each question is answered by a step on the state. -/
def answering (answer : (q : Ask) → σ → Answer q × σ) (q : Ask) (x : σ) (a : Answer q) (y : σ) :
    Prop :=
  a = (answer q x).1 ∧ y = (answer q x).2

/-- What is under way at one moment. -/
abbrev State (Ask : Type) (Answer : Ask → Type) (β σ : Type) (entries : List ι) :=
  Interleaving.State Ask Answer (Fin entries.length) (fun _ => Option β) σ

variable {entries : List ι}

/-- What is left of the jobs, in the order of starting. -/
def left (st : State Ask Answer β σ entries) : List (Program Ask Answer (Option β)) :=
  st.threads.map fun th => th.work

/-- The result of work that has ended with one. -/
def outcome? : Program Ask Answer (Option β) → Option β
  | .done o => o
  | .ask _ _ => none

def outcomes (st : State Ask Answer β σ entries) : List β := (left st).filterMap outcome?

def Complete (st : State Ask Answer β σ entries) : Prop :=
  (st.threads.map Thread.job).Perm (List.finRange entries.length) ∧
    ∀ w ∈ left st, ∃ o, w = .done o

section Runs

variable {find : ι → Scouting Ask Answer β} {answers : (q : Ask) → σ → Answer q → σ → Prop}
  {x₀ : σ} {st : State Ask Answer β σ entries}

/-- No entry is worked on twice. -/
lemma nodup_jobs (h : Run (rules find entries answers) { shared := x₀ } st) :
    (st.threads.map Thread.job).Nodup := by
  refine h.keeps (P := fun st => (st.threads.map Thread.job).Nodup) (by simp)
    fun {t u} _ ih step => ?_
  cases step with
  | move hm => exact hm.elim
  | start hst =>
    rw [State.started, List.map_append]
    refine List.nodup_append.2 ⟨ih, List.nodup_singleton _, fun p hp p' hp' => ?_⟩
    obtain ⟨th, hth, rfl⟩ := List.mem_map.1 hp
    rw [List.mem_singleton.1 hp']
    exact hst.2 th hth
  | answer asks =>
    rw [jobs_answered asks]
    exact ih

/-- If the work on an entry asks so many questions at most, a run has so many answers for each. -/
lemma length_log_le {k : Nat} (hk : ∀ e ∈ entries, (handle find e).Within k)
    (h : Run (rules find entries answers) { shared := x₀ } st) :
    st.log.length ≤ entries.length * k := by
  have hpast : ∀ m ∈ ((List.range st.threads.length).map st.past).map List.length, m ≤ k := by
    intro m hm
    obtain ⟨l, hl, rfl⟩ := List.mem_map.1 hm
    obtain ⟨n, hn, rfl⟩ := List.mem_map.1 hl
    have hpath := h.path (List.getElem?_eq_getElem (List.mem_range.1 hn))
    exact (hk _ (List.get_mem entries _)).length_le hpath
  have hthreads : st.threads.length ≤ entries.length := by
    simpa using (nodup_jobs h).length_le_card
  calc st.log.length
      = (((List.range st.threads.length).map st.past).map List.length).sum := by
        rw [← List.length_flatten, h.perm_pasts.length_eq, List.length_map]
    _ ≤ st.threads.length * k := by simpa using List.sum_le_card_nsmul _ k hpast
    _ ≤ entries.length * k := Nat.mul_le_mul_right k hthreads

end Runs

/-! ### What a run can come to -/

section Reached

variable (find : ι → Scouting Ask Answer β) (answer : (q : Ask) → σ → Answer q × σ) (x₀ : σ)

/-- A run has come to this shared state, with just this work left and so many answers at least. -/
def Reached (entries : List ι) (x : σ) (work : Multiset (Program Ask Answer (Option β)))
    (m : Nat) : Prop :=
  ∃ st : State Ask Answer β σ entries,
    Run (rules find entries (answering answer)) { shared := x₀ } st ∧ st.shared = x ∧
      st.threads.map Thread.job = List.finRange entries.length ∧ (left st : Multiset _) = work ∧
      m ≤ st.log.length

variable {find answer x₀} {x : σ} {work : Multiset (Program Ask Answer (Option β))} {m : Nat}

/-- All entries can be started before anything else is done: a job that has asked nothing yet is as
good as one that was not started. -/
lemma run_started (ps : List (Fin entries.length)) (hps : ps.Nodup) :
    Run (rules find entries (answering answer)) { shared := x₀ }
      { shared := x₀
        threads := ps.map fun p => ⟨p, handle find (entries.get p)⟩ } := by
  induction ps using List.reverseRecOn with
  | nil => exact .refl
  | append_singleton ps p ih =>
    obtain ⟨hps, -, hp⟩ := List.nodup_append.1 hps
    have hstep := (ih hps).snoc (.start (j := p) (x := x₀) ⟨rfl, fun th hth => ?_⟩)
    · simpa [State.started, rules] using hstep
    · obtain ⟨p', hp', rfl⟩ := List.mem_map.1 hth
      exact hp p' hp' p (List.mem_singleton_self p)

lemma reached_first : Reached find answer x₀ entries x₀ ↑(entries.map (handle find)) 0 := by
  refine ⟨_, run_started (List.finRange entries.length) (List.nodup_finRange _), rfl, ?_, ?_,
    Nat.zero_le _⟩
  · rw [List.map_map]
    exact List.map_id _
  · have hwork := congrArg (List.map (handle find)) (List.map_get_finRange entries)
    rw [List.map_map] at hwork
    rw [← hwork, left, List.map_map]
    rfl

/-- An answer leaves the jobs as they are and puts the next work in the place of one. -/
lemma Reached.answered {q : Ask} {next : Answer q → Program Ask Answer (Option β)}
    (h : Reached find answer x₀ entries x (.ask q next ::ₘ work) m) :
    Reached find answer x₀ entries (answer q x).2 (next (answer q x).1 ::ₘ work) (m + 1) := by
  obtain ⟨st, hrun, rfl, hjobs, hleft, hm⟩ := h
  have hmem : Program.ask q next ∈ left st := by
    rw [← Multiset.mem_coe, hleft]
    exact Multiset.mem_cons_self _ _
  obtain ⟨n, hlt, hn⟩ := List.getElem_of_mem hmem
  have hlt' : n < st.threads.length := by simpa [left] using hlt
  have hth : st.threads[n]? = some ⟨st.threads[n].job, .ask q next⟩ := by
    rw [List.getElem?_eq_getElem hlt', ← hn]
    simp [left]
  have step := Step.answer (R := rules find entries (answering answer)) hth
    (a := (answer q st.shared).1) (x := (answer q st.shared).2) ⟨rfl, rfl⟩
  refine ⟨_, hrun.snoc step, rfl, ?_, ?_, ?_⟩
  · exact (jobs_answered hth).trans hjobs
  · have hset : left (st.answered n st.threads[n].job q (answer q st.shared).1 next
        (answer q st.shared).2) = (left st).set n (next (answer q st.shared).1) := by
      rw [left, State.answered, List.map_set]
      rfl
    have hcons := List.getElem_cons_eraseIdx_perm hlt
    rw [hn] at hcons
    rw [hset, Multiset.coe_eq_coe.2 (List.set_perm_cons_eraseIdx hlt _), ← Multiset.cons_coe]
    rw [← Multiset.coe_eq_coe.2 hcons, ← Multiset.cons_coe] at hleft
    rw [(Multiset.cons_inj_right _).1 hleft]
  · rw [State.answered, List.length_append]
    exact Nat.succ_le_succ hm

lemma Reached.mono (h : Reached find answer x₀ entries x work m) {k : Nat} (hk : k ≤ m) :
    Reached find answer x₀ entries x work k := by
  obtain ⟨st, hrun, hx, hjobs, hleft, hm⟩ := h
  exact ⟨st, hrun, hx, hjobs, hleft, hk.trans hm⟩

lemma Reached.advance {α : Type} (waits : Ask → Bool) {p : Program Ask Answer α}
    {f : α → Program Ask Answer (Option β)}
    (h : Reached find answer x₀ entries x (p.bind f ::ₘ work) m) :
    Reached find answer x₀ entries (p.advance waits answer x).2
      ((p.advance waits answer x).1.bind f ::ₘ work) m := by
  induction p generalizing x m with
  | done a => exact h
  | ask q next ih =>
    unfold Program.advance
    split
    · exact h
    · exact ih _ (h.answered.mono (Nat.le_succ m))

lemma Reached.run {α : Type} {p : Program Ask Answer α} {f : α → Program Ask Answer (Option β)}
    (h : Reached find answer x₀ entries x (p.bind f ::ₘ work) m) :
    Reached find answer x₀ entries (p.run answer x).2 (f (p.run answer x).1 ::ₘ work) m := by
  induction p generalizing x m with
  | done a => exact h
  | ask q next ih => exact ih _ (h.answered.mono (Nat.le_succ m))

end Reached

/-! ### A crew within a round -/

/-- What is left of the work of one who waits. -/
def rest : Waiting Ask Answer β → Program Ask Answer (Option β)
  | .scout p => p.bind carry
  | .hand p => carry (some p)

def isScout : Waiting Ask Answer β → Bool
  | .hand _ => false
  | .scout _ => true

def asks : Waiting Ask Answer β → Bool
  | .hand (.ask ..) | .scout (.ask ..) => true
  | _ => false

/-- What the scout and the hands have begun, and what they have done. -/
def bench (c : Crew Ask Answer ι β) : Multiset (Program Ask Answer (Option β)) :=
  ↑(c.scout.toList.map fun p => p.bind carry) + ↑(c.ready.map fun p => carry (some p)) +
    ↑(c.waiting.map rest) + ↑(c.results.map fun b => (.done (some b) : Program Ask Answer _))

/-- What is left of entries that the scout has not looked at, and of some that came to nothing. -/
def ahead (find : ι → Scouting Ask Answer β) (es : List ι) (k : Nat) :
    Multiset (Program Ask Answer (Option β)) :=
  Multiset.ofList (es.map (handle find)) + Multiset.replicate k (.done none)

/-- What is left when all work has ended, with these results. -/
def ended (bs : List β) (k : Nat) : Multiset (Program Ask Answer (Option β)) :=
  Multiset.ofList (bs.map fun b => .done (some b)) + Multiset.replicate k (.done none)

lemma ended_append (bs : List β) (b : β) (k : Nat) :
    (ended (bs ++ [b]) k : Multiset (Program Ask Answer (Option β))) =
      .done (some b) ::ₘ ended bs k := by
  rw [ended, List.map_append, ← Multiset.coe_add, List.map_singleton, Multiset.coe_singleton,
    add_comm (Multiset.ofList _), add_assoc, Multiset.singleton_add]
  rfl

section Bench

variable {c : Crew Ask Answer ι β}

lemma bench_scout {p : Scouting Ask Answer β} (h : c.scout = some p) :
    bench c = p.bind carry ::ₘ bench { c with scout := none } := by
  simp [bench, h, ← Multiset.singleton_add, add_assoc]

lemma bench_ready {p : Program Ask Answer β} {ps : List (Program Ask Answer β)}
    (h : c.ready = p :: ps) : bench c = carry (some p) ::ₘ bench { c with ready := ps } := by
  simp only [bench, h, List.map_cons, ← Multiset.cons_coe, ← Multiset.singleton_add]
  abel

lemma bench_waiting {w : Waiting Ask Answer β} {ws : List (Waiting Ask Answer β)}
    (h : c.waiting = w :: ws) : bench c = rest w ::ₘ bench { c with waiting := ws } := by
  simp only [bench, h, List.map_cons, ← Multiset.cons_coe, ← Multiset.singleton_add]
  abel

lemma bench_ready_append (p : Program Ask Answer β) :
    bench { c with ready := c.ready ++ [p] } = carry (some p) ::ₘ bench c := by
  simp only [bench, List.map_append, List.map_singleton, ← Multiset.coe_add,
    Multiset.coe_singleton, ← Multiset.singleton_add]
  abel

lemma bench_waiting_append (w : Waiting Ask Answer β) :
    bench { c with waiting := c.waiting ++ [w] } = rest w ::ₘ bench c := by
  simp only [bench, List.map_append, List.map_singleton, ← Multiset.coe_add,
    Multiset.coe_singleton, ← Multiset.singleton_add]
  abel

lemma bench_results_append (b : β) :
    bench { c with results := c.results ++ [b] } = .done (some b) ::ₘ bench c := by
  simp only [bench, List.map_append, List.map_singleton, ← Multiset.coe_add,
    Multiset.coe_singleton, ← Multiset.singleton_add]
  abel

end Bench

section Rounds

variable (waits : Ask → Bool) (answer : (q : Ask) → σ → Answer q × σ)
  (find : ι → Scouting Ask Answer β) (limit : Nat) (x₀ : σ) (entries : List ι)

/-- A run has come as far as the crew, which has still to look at these entries. -/
def Covers (es : List ι) (c : Crew Ask Answer ι β) (x : σ) (m : Nat) : Prop :=
  ∃ k, Reached find answer x₀ entries x (bench c + ahead find es k) m

/-- The scout has nothing in hand, or it waits, once, and all who wait have asked. -/
structure Sound (c : Crew Ask Answer ι β) : Prop where
  scout : c.scout = none
  asks : ∀ w ∈ c.waiting, asks w = true
  lone : c.waiting.countP isScout ≤ 1

/-- What holds of a crew in the middle of a round. -/
structure Steady (c : Crew Ask Answer ι β) : Prop extends Sound c where
  /-- If a hand is free, the scout waits or is through. -/
  filled : c.entries = [] ∨ limit ≤ c.busy ∨ c.scouting = true

/-- A run has come as far as a crew in the middle of a round. -/
structure Midway (r : Crew Ask Answer ι β × σ) (m : Nat) : Prop where
  steady : Steady limit r.1
  covers : Covers answer find x₀ entries r.1.entries r.1 r.2 m

variable {answer find limit x₀ entries} {c : Crew Ask Answer ι β} {x : σ} {m : Nat} {es : List ι}

lemma look_cases (answer : (q : Ask) → σ → Answer q × σ) (c : Crew Ask Answer ι β)
    (p : Scouting Ask Answer β) (x : σ) :
    (∃ y, p.advance waits answer x = (.done none, y) ∧ c.look waits answer p x = (c, y)) ∨
    (∃ job y, p.advance waits answer x = (.done (some job), y) ∧
      c.look waits answer p x = ({ c with ready := c.ready ++ [job] }, y)) ∨
    ∃ q next y, p.advance waits answer x = (.ask q next, y) ∧
      c.look waits answer p x =
        ({ c with waiting := c.waiting ++ [.scout (.ask q next)] }, y) := by
  unfold look
  rcases p.advance waits answer x with ⟨_ | ⟨q, next⟩, y⟩
  case done o =>
    rcases o with _ | job
    · exact .inl ⟨y, rfl, rfl⟩
    · exact .inr (.inl ⟨job, y, rfl, rfl⟩)
  case ask => exact .inr (.inr ⟨q, next, y, rfl, rfl⟩)

lemma entries_look (answer : (q : Ask) → σ → Answer q × σ) (c : Crew Ask Answer ι β)
    (p : Scouting Ask Answer β) (x : σ) : (c.look waits answer p x).1.entries = c.entries := by
  rcases look_cases waits answer c p x with
    ⟨y, -, hc⟩ | ⟨job, y, -, hc⟩ | ⟨q, next, y, -, hc⟩ <;> rw [hc]

lemma covers_look {p : Scouting Ask Answer β} {k : Nat}
    (h : Reached find answer x₀ entries x (p.bind carry ::ₘ (bench c + ahead find es k)) m) :
    Covers answer find x₀ entries es (c.look waits answer p x).1 (c.look waits answer p x).2 m := by
  have hadv := h.advance waits
  rcases look_cases waits answer c p x with
    ⟨y, hp, hc⟩ | ⟨job, y, hp, hc⟩ | ⟨q, next, y, hp, hc⟩ <;> rw [hp] at hadv <;> rw [hc]
  · refine ⟨k + 1, ?_⟩
    rw [ahead, Multiset.replicate_succ, Multiset.add_cons, Multiset.add_cons]
    exact hadv
  · refine ⟨k, ?_⟩
    rw [bench_ready_append, Multiset.cons_add]
    exact hadv
  · refine ⟨k, ?_⟩
    rw [bench_waiting_append, Multiset.cons_add]
    exact hadv

lemma sound_look (answer : (q : Ask) → σ → Answer q × σ) (h : Sound c)
    (hn : c.waiting.countP isScout = 0) (p : Scouting Ask Answer β) (x : σ) :
    Sound (c.look waits answer p x).1 ∧
      (c.look waits answer p x).1.ready.length ≤ c.ready.length + 1 := by
  rcases look_cases waits answer c p x with
    ⟨y, -, hc⟩ | ⟨job, y, -, hc⟩ | ⟨q, next, y, -, hc⟩ <;> rw [hc]
  · exact ⟨h, Nat.le_succ _⟩
  · exact ⟨⟨h.scout, h.asks, h.lone⟩, by simp⟩
  · refine ⟨⟨h.scout, fun w hw => ?_, ?_⟩, Nat.le_succ _⟩
    · rcases List.mem_append.1 hw with hw | hw
      · exact h.asks w hw
      · rw [List.mem_singleton.1 hw]
        rfl
    · rw [List.countP_append, hn]
      exact Nat.le_refl _

/-- The scout looks at one entry after the other, and stops with no hand free, with an answer to
wait for or at the end of the list. -/
lemma midway_fillFrom (es : List ι) (h : Sound c) (hc : Covers answer find x₀ entries es c x m) :
    Midway answer find limit x₀ entries (fillFrom waits answer find limit es c x) m ∧
      (fillFrom waits answer find limit es c x).1.load ≤ es.length + c.ready.length + 1 := by
  induction es generalizing c x with
  | nil => exact ⟨⟨⟨⟨h.scout, h.asks, h.lone⟩, .inl rfl⟩, hc⟩, Nat.le_refl _⟩
  | cons e es ih =>
    unfold fillFrom
    split
    · next hfull =>
      rw [Bool.or_eq_true, decide_eq_true_eq] at hfull
      exact ⟨⟨⟨⟨h.scout, h.asks, h.lone⟩, .inr hfull⟩, hc⟩, Nat.le_refl _⟩
    · next hfree =>
      rw [Bool.or_eq_true, not_or] at hfree
      -- no scout waits yet, so there is room for this one
      have hnone : c.waiting.countP isScout = 0 :=
        List.countP_eq_zero.2 fun w hw hscout => hfree.2 (List.any_eq_true.2 ⟨w, hw, hscout⟩)
      obtain ⟨k, hk⟩ := hc
      rw [ahead, List.map_cons, ← Multiset.cons_coe, Multiset.cons_add, Multiset.add_cons] at hk
      obtain ⟨hsound, hlen⟩ := sound_look waits answer h hnone (find e) x
      obtain ⟨hmid, hload⟩ := ih hsound (covers_look waits hk)
      exact ⟨hmid, hload.trans (by rw [List.length_cons]; omega)⟩

lemma fill_of_none (h : c.scout = none) :
    fill waits answer find limit c x = fillFrom waits answer find limit c.entries c x := by
  rw [fill, h]

lemma fill_of_some {p : Scouting Ask Answer β} (h : c.scout = some p) :
    fill waits answer find limit c x =
      let d := look waits answer { c with scout := none } p x
      fillFrom waits answer find limit c.entries d.1 d.2 := by
  have hes := entries_look waits answer { c with scout := none } p x
  simp only [fill, h, hes]

lemma midway_fill (h : Sound { c with scout := none }) (hs : c.scout = none ∨ c.waiting = [])
    (hc : Covers answer find x₀ entries c.entries c x m) :
    Midway answer find limit x₀ entries (fill waits answer find limit c x) m ∧
      (fill waits answer find limit c x).1.load ≤ c.load + c.scout.toList.length := by
  rcases hscout : c.scout with _ | p
  · rw [fill_of_none waits hscout]
    exact midway_fillFrom waits c.entries ⟨hscout, h.asks, h.lone⟩ hc
  · rw [fill_of_some waits hscout]
    have hw : c.waiting = [] := hs.resolve_left (by simp [hscout])
    obtain ⟨k, hk⟩ := hc
    rw [bench_scout hscout, Multiset.cons_add] at hk
    obtain ⟨hsound, (hlen : _ ≤ c.ready.length + 1)⟩ :=
      sound_look waits answer h (by simp [hw]) p x
    obtain ⟨hmid, hload⟩ := midway_fillFrom waits c.entries hsound (covers_look waits hk)
    refine ⟨hmid, hload.trans ?_⟩
    rw [load, Option.toList_some, List.length_singleton]
    omega

lemma Steady.hand_waits (h : Steady limit c) {job : Program Ask Answer β}
    {jobs : List (Program Ask Answer β)} (hr : c.ready = job :: jobs) {q : Ask}
    (next : Answer q → Program Ask Answer β) :
    Steady limit { c with ready := jobs, waiting := c.waiting ++ [.hand (.ask q next)] } := by
  have hbusy : busy { c with ready := jobs, waiting := c.waiting ++ [.hand (.ask q next)] } =
      c.busy := by
    simp [busy, hr]
    omega
  have hscouting : scouting { c with
      ready := jobs, waiting := c.waiting ++ [.hand (.ask q next)] } = c.scouting := by
    simp [scouting]
  refine ⟨⟨h.scout, fun w hw => ?_, ?_⟩, ?_⟩
  · rcases List.mem_append.1 hw with hw | hw
    · exact h.asks w hw
    · rw [List.mem_singleton.1 hw]
      rfl
  · rw [List.countP_append]
    exact h.lone
  · rw [hbusy, hscouting]
    exact h.filled

lemma poll_of_done {turns : Nat} {job : Program Ask Answer β} {jobs : List (Program Ask Answer β)}
    {b : β} {y : σ} (hr : c.ready = job :: jobs)
    (hj : job.advance waits answer x = (.done b, y)) :
    poll waits answer find limit (turns + 1) c x =
      let d := fill waits answer find limit
        { c with ready := jobs, results := c.results ++ [b] } y
      poll waits answer find limit turns d.1 d.2 := by
  rw [poll, hr]
  simp only [hj]

lemma poll_of_ask {turns : Nat} {job : Program Ask Answer β} {jobs : List (Program Ask Answer β)}
    {q : Ask} {next : Answer q → Program Ask Answer β} {y : σ} (hr : c.ready = job :: jobs)
    (hj : job.advance waits answer x = (.ask q next, y)) :
    poll waits answer find limit (turns + 1) c x = poll waits answer find limit turns
      { c with ready := jobs, waiting := c.waiting ++ [.hand (.ask q next)] } y := by
  rw [poll, hr]
  simp only [hj]

/-- The hands go on, until each of them waits or has no job. -/
lemma midway_poll (turns : Nat) (h : Steady limit c)
    (hc : Covers answer find x₀ entries c.entries c x m) :
    Midway answer find limit x₀ entries (poll waits answer find limit turns c x) m ∧
      (c.load ≤ turns → (poll waits answer find limit turns c x).1.ready = []) := by
  induction turns generalizing c x with
  | zero => exact ⟨⟨h, hc⟩, nofun⟩
  | succ turns ih =>
    rcases hready : c.ready with _ | ⟨job, jobs⟩
    · rw [poll, hready]
      exact ⟨⟨h, hc⟩, fun _ => hready⟩
    · obtain ⟨k, hk⟩ := hc
      rw [bench_ready hready, Multiset.cons_add] at hk
      have hadv := hk.advance waits
      have hload : c.load = c.entries.length + jobs.length + 2 := by
        rw [load, hready, List.length_cons, ← Nat.add_assoc]
      rcases hjob : job.advance waits answer x with ⟨b | ⟨q, next⟩, y⟩ <;> rw [hjob] at hadv
      · -- the job has ended, and the scout has its turn
        rw [poll_of_done waits hready hjob]
        have hdone : Covers answer find x₀ entries c.entries
            { c with ready := jobs, results := c.results ++ [b] } y m :=
          ⟨k, by rw [bench_results_append (c := { c with ready := jobs }), Multiset.cons_add]
                 exact hadv⟩
        obtain ⟨hmid, hfill⟩ := midway_fill waits (c := { c with
          ready := jobs, results := c.results ++ [b] }) ⟨rfl, h.asks, h.lone⟩ (.inl h.scout) hdone
        obtain ⟨hpoll, hempty⟩ := ih hmid.steady hmid.covers
        refine ⟨hpoll, fun hlt => hempty (hfill.trans ?_)⟩
        simp only [load, h.scout, Option.toList_none, List.length_nil]
        omega
      · rw [poll_of_ask waits hready hjob]
        obtain ⟨hpoll, hempty⟩ := ih (h.hand_waits hready next)
          ⟨k, by rw [bench_waiting_append (c := { c with ready := jobs }), Multiset.cons_add]
                 exact hadv⟩
        refine ⟨hpoll, fun hlt => hempty ?_⟩
        simp only [load]
        omega

lemma covers_reply (ws : List (Waiting Ask Answer β)) (hw : c.waiting = [])
    (ha : ∀ w ∈ ws, asks w = true) (hs : ws.countP isScout + c.scout.toList.length ≤ 1)
    (h : Covers answer find x₀ entries es { c with waiting := ws } x m) :
    Covers answer find x₀ entries es (reply answer ws c x).1 (reply answer ws c x).2
        (m + ws.length) ∧
      (reply answer ws c x).1.waiting = [] ∧ (reply answer ws c x).1.entries = c.entries := by
  induction ws generalizing c x m with
  | nil =>
    have hc : { c with waiting := [] } = c := by rw [← hw]
    rw [hc] at h
    exact ⟨h, hw, rfl⟩
  | cons w ws ih =>
    obtain ⟨k, hk⟩ := h
    rw [bench_waiting (c := { c with waiting := w :: ws }) rfl, Multiset.cons_add] at hk
    have ha' : ∀ w ∈ ws, asks w = true := fun w hw => ha w (List.mem_cons_of_mem _ hw)
    rw [List.length_cons, Nat.add_comm ws.length, ← Nat.add_assoc]
    have hask := ha w (List.mem_cons_self ..)
    match w, hask with
    | .scout (.ask q next), _ =>
      have hlone : ws.countP isScout + 1 + c.scout.toList.length ≤ 1 := by
        rwa [List.countP_cons_of_pos rfl] at hs
      -- nothing that the scout has in hand is lost
      have hnone : c.scout = none := by
        rw [← Option.toList_eq_nil_iff]
        exact List.length_eq_zero_iff.1 (by omega)
      refine ih (c := { c with scout := some (next (answer q x).1) }) hw ha' ?_ ⟨k, ?_⟩
      · rw [Option.toList_some, List.length_singleton]
        omega
      · have hc : { c with waiting := ws, scout := none } = { c with waiting := ws } := by
          rw [← hnone]
        rw [bench_scout (c := { c with waiting := ws, scout := some (next (answer q x).1) }) rfl,
          Multiset.cons_add]
        simp only [hc]
        exact hk.answered
    | .hand (.ask q next), _ =>
      refine ih (c := { c with ready := c.ready ++ [next (answer q x).1] }) hw ha' ?_ ⟨k, ?_⟩
      · rwa [List.countP_cons_of_neg (by simp [isScout])] at hs
      · rw [bench_ready_append (c := { c with waiting := ws }), Multiset.cons_add]
        exact hk.answered

/-- A round, up to the answers: afterwards no hand can go on. -/
lemma midway_round (limit : Nat) (hw : c.waiting = [])
    (hc : Covers answer find x₀ entries c.entries c x m) :
    let d := fill waits answer find limit c x
    Midway answer find limit x₀ entries (poll waits answer find limit d.1.load d.1 d.2) m ∧
      (poll waits answer find limit d.1.load d.1 d.2).1.ready = [] := by
  intro d
  have hsound : Sound { c with scout := none } := ⟨rfl, by simp [hw], by simp [hw]⟩
  have hfill : Midway answer find limit x₀ entries d m :=
    (midway_fill waits hsound (.inr hw) hc).1
  obtain ⟨hpoll, hempty⟩ := midway_poll waits d.1.load hfill.steady hfill.covers
  exact ⟨hpoll, hempty (Nat.le_refl _)⟩

/-- If nobody waits and no hand can go on, all hands are free, and so the scout is through. -/
lemma Midway.ended {d : Crew Ask Answer ι β × σ} (h : Midway answer find limit x₀ entries d m)
    (hl : 0 < limit) (hready : d.1.ready = []) (hwait : d.1.waiting = []) :
    ∃ k, Reached find answer x₀ entries d.2 (ended d.1.results k) 0 := by
  have hnil : d.1.entries = [] := by
    rcases h.steady.filled with hes | hbusy | hscouting
    · exact hes
    · simp [busy, hready, hwait] at hbusy
      omega
    · simp [scouting, hwait] at hscouting
  obtain ⟨k, hk⟩ := h.covers
  refine ⟨k, ?_⟩
  have hwork : bench d.1 + ahead find d.1.entries k = Crew.ended d.1.results k := by
    simp [bench, ahead, Crew.ended, hnil, hready, hwait, h.steady.scout]
  rw [hwork] at hk
  exact hk.mono (Nat.zero_le m)

/-- **A crew that stops has done all of its work**, if it has more rounds than a run has answers:
each round but the last answers a question. -/
lemma reached_run (hl : 0 < limit) {bound : Nat}
    (hb : ∀ st : State Ask Answer β σ entries,
      Run (rules find entries (answering answer)) { shared := x₀ } st → st.log.length ≤ bound)
    (rounds : Nat) (hw : c.waiting = []) (hr : bound < m + rounds)
    (hc : Covers answer find x₀ entries c.entries c x m) :
    ∃ k, Reached find answer x₀ entries (run waits answer find limit rounds c x).2
      (ended (run waits answer find limit rounds c x).1 k) 0 := by
  induction rounds generalizing c x m with
  | zero =>
    -- so many rounds have passed that the run has more answers than it can have
    obtain ⟨k, st, hrun, -, -, -, hm⟩ := hc
    have := hb st hrun
    omega
  | succ rounds ih =>
    obtain ⟨hmid, hready⟩ := midway_round waits limit hw hc
    unfold run
    simp only
    generalize poll waits answer find limit (fill waits answer find limit c x).1.load
      (fill waits answer find limit c x).1 (fill waits answer find limit c x).2 = d at *
    split
    · next hidle => exact hmid.ended hl hready (List.isEmpty_iff.1 hidle)
    · next hbusy =>
      have hpos : 0 < d.1.waiting.length :=
        List.length_pos_iff.2 fun h => hbusy (List.isEmpty_iff.2 h)
      obtain ⟨hcov, hwait, hes⟩ := covers_reply (c := { d.1 with waiting := [] }) d.1.waiting rfl
        hmid.steady.asks (by simp [hmid.steady.scout, hmid.steady.lone]) hmid.covers
      exact ih (m := m + d.1.waiting.length) hwait (by omega) (by rw [hes]; exact hcov)

end Rounds

/-! ### The end -/

section End

variable {answer : (q : Ask) → σ → Answer q × σ} {find : ι → Scouting Ask Answer β} {x₀ x : σ}
  {entries : List ι}

lemma mem_ended {bs : List β} {k : Nat} {w : Program Ask Answer (Option β)} (h : w ∈ ended bs k) :
    ∃ o, w = .done o := by
  rcases Multiset.mem_add.1 h with h | h
  · obtain ⟨b, -, rfl⟩ := List.mem_map.1 (Multiset.mem_coe.1 h)
    exact ⟨some b, rfl⟩
  · exact ⟨none, Multiset.eq_of_mem_replicate h⟩

/-- When all work has ended, so has that on each entry, and the results are its results. -/
lemma Reached.complete {bs : List β} {k m : Nat}
    (h : Reached find answer x₀ entries x (ended bs k) m) :
    ∃ st : State Ask Answer β σ entries,
      Run (rules find entries (answering answer)) { shared := x₀ } st ∧ Complete st ∧
        st.shared = x ∧ (outcomes st).Perm bs := by
  obtain ⟨st, hrun, hx, hjobs, hleft, -⟩ := h
  refine ⟨st, hrun, ⟨by rw [hjobs], fun w hw => ?_⟩, hx, ?_⟩
  · exact mem_ended (hleft ▸ Multiset.mem_coe.2 hw)
  · have hperm : (left st).Perm
        (bs.map (fun b => .done (some b)) ++ List.replicate k (.done none)) := by
      rw [← Multiset.coe_eq_coe, hleft, ← Multiset.coe_add, Multiset.coe_replicate]
      rfl
    refine (hperm.filterMap outcome?).trans ?_
    simp [List.filterMap_append, outcome?, List.filterMap_map, Function.comp_def,
      List.filterMap_replicate]

/-- **A crew with room for a job brings the work on each entry to its end**, if it has more rounds
than a run has answers, and its results are those of the entries. -/
theorem run_complete (waits : Ask → Bool) {limit bound rounds : Nat} (hl : 0 < limit)
    (hb : ∀ st : State Ask Answer β σ entries,
      Run (rules find entries (answering answer)) { shared := x₀ } st → st.log.length ≤ bound)
    (hr : bound < rounds) :
    ∃ st : State Ask Answer β σ entries,
      Run (rules find entries (answering answer)) { shared := x₀ } st ∧ Complete st ∧
        st.shared = (run waits answer find limit rounds { entries := entries } x₀).2 ∧
        (outcomes st).Perm (run waits answer find limit rounds { entries := entries } x₀).1 := by
  have hcov : Covers answer find x₀ entries entries
      ({ entries := entries } : Crew Ask Answer ι β) x₀ 0 :=
    ⟨0, by simpa [bench, ahead] using reached_first⟩
  obtain ⟨k, hk⟩ := reached_run waits hl hb rounds rfl (by omega) hcov
  exact hk.complete

end End

end Crew

end MailQueue

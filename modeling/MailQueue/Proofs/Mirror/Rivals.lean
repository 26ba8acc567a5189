import MailQueue.Proofs.Mirror.Invariant

/-!
# Rounds that are lost

An update loses a round only when another call has written on its task in the meantime.

* `losses` is the number of rounds that an update has lost, the one that it is bound to lose
  included;
* `since` are the records from the first one of a call on;
* `losses_le_rivals`: at every moment there were as many writes of others.
-/

namespace MailQueue.Mirror

open Interleaving KeyValue KeyValue.Client

variable {f : Mirror} {m : Memory} {s : State} {x y x₀ : Shared} {n : Nat}

/-- The rounds that an update has lost. It is bound to lose one when the letter is not what was
read any more. -/
def losses (f : Mirror) (x : Shared) (id : TaskId) : Update → Nat
  | .reading rounds => maxRounds - (rounds + 1)
  | .swapping rounds w _ | .teaching rounds w =>
    maxRounds - (rounds + 1) +
      if x.server.text? (f.keys.letter id) = some w.raw then 0 else 1
  | .finished (.error (.conflicts _ _)) => maxRounds
  | .finished _ => 0

/-- The records from the first one of a call on. -/
def since (n : Nat) (log : List Entry) : List Entry := log.dropWhile fun e => e.thread != n

/-! ### Records -/

theorem since_append_of_mem {log post : List Entry} {d : Entry} (hd : d ∈ log)
    (hn : d.thread = n) : since n (log ++ post) = since n log ++ post := by
  rw [since, List.dropWhile_append]
  split
  · next h =>
    have h := List.dropWhile_eq_nil_iff.1 (List.isEmpty_iff.1 h) d hd
    simp [hn] at h
  · rfl

theorem since_append_of_past {log : List Entry} (h : pastIn log n ≠ []) (post : List Entry) :
    since n (log ++ post) = since n log ++ post := by
  obtain ⟨x, hx⟩ := List.exists_mem_of_ne_nil _ h
  obtain ⟨d, hd, hn, -⟩ := mem_pastIn.1 hx
  exact since_append_of_mem hd hn

theorem since_concat (pre : List Entry) {e : Entry} (hn : e.thread = n) :
    ∃ l, since n (pre ++ [e]) = l ++ [e] := by
  have hneg : ¬(e.thread != n) = true := by simp [hn]
  rw [since, List.dropWhile_append]
  split
  · exact ⟨[], List.dropWhile_cons_of_neg hneg⟩
  · exact ⟨_, rfl⟩

theorem span_eq_since {pre post : List Entry} {e : Entry} (hn : e.thread = n)
    (hpost : ∀ d ∈ post, d.thread ≠ n) : span n (pre ++ e :: post) = since n (pre ++ [e]) := by
  have he : e ∈ pre ++ [e] := List.mem_append_right _ List.mem_cons_self
  have hneg : ¬(e.thread != n) = true := by simp [hn]
  have hpos : ∀ d ∈ post.reverse, (d.thread != n) = true := by
    intro d hd
    simpa using hpost d (List.mem_reverse.1 hd)
  obtain ⟨l, hl⟩ := since_concat pre hn
  calc span n (pre ++ e :: post)
      = (since n ((pre ++ [e]) ++ post)).rdropWhile fun d => d.thread != n := by
        rw [span, since, List.append_assoc, List.singleton_append]
    _ = ((l ++ [e]) ++ post).rdropWhile fun d => d.thread != n := by
        rw [since_append_of_mem he hn, hl]
    _ = (l ++ [e]).rdropWhile fun d => d.thread != n := by
        rw [List.rdropWhile, List.reverse_append, List.dropWhile_append_of_pos hpos]
        rfl
    _ = since n (pre ++ [e]) := by
        rw [List.rdropWhile_concat_neg (fun d : Entry => d.thread != n) _ _ hneg, hl]

theorem rivals_append (n : Nat) (id : TaskId) (log : List Entry) (e : Entry) :
    rivals n id (log ++ [e]) =
      rivals n id log + if writesAt e && e.thread != n && e.job.id == id then 1 else 0 := by
  rw [rivals, rivals, List.countP_append, List.countP_singleton]

theorem rivals_since_le (n : Nat) (id : TaskId) (log : List Entry) (e : Entry) :
    rivals n id (since n log) ≤ rivals n id (since n (log ++ [e])) := by
  rw [since, since, List.dropWhile_append]
  split
  · next h =>
    rw [List.isEmpty_iff.1 h]
    exact Nat.zero_le _
  · rw [rivals_append]
    exact Nat.le_add_right _ _

/-! ### Losing a round -/

/-- A command of an update loses no round but the one that it was bound to lose. -/
theorem losses_of_turn {id : TaskId} {decide : Task → Option Decision} {d e : Update}
    {q : Command} {a : q.Answer} {v : Server} (hs : Sound decide maxRounds d)
    (h : Turn f id decide x d q a e v) :
    losses f { x with server := v } id e ≤ losses f x id d := by
  cases h with
  | gone | left | won => exact Nat.zero_le _
  | read rounds raw t d hraw =>
    show _ + (if x.server.text? (f.keys.letter id) = some raw then 0 else 1) ≤ _
    rw [if_pos hraw]
    exact Nat.le_refl _
  | unknown rounds w => exact Nat.le_refl _
  | taught rounds w => exact Nat.le_refl _
  | lost rounds w wasTaught hraw =>
    have hd : losses f x id (.swapping rounds w wasTaught) = maxRounds - (rounds + 1) + 1 := by
      show _ + (if x.server.text? (f.keys.letter id) = some w.raw then 0 else 1) = _
      rw [if_neg hraw]
    have hlt : rounds < maxRounds := hs.1
    rw [hd]
    cases rounds with
    | zero => exact Nat.le_refl maxRounds
    | succ rounds =>
      show maxRounds - (rounds + 1) ≤ _
      omega

/-- A letter that stays what it was costs no round, and one that changes costs one at most. -/
theorem losses_of_letter {id : TaskId} (d : Update) (bound : Nat)
    (h : y.server.text? (f.keys.letter id) = x.server.text? (f.keys.letter id) ∨ 1 ≤ bound) :
    losses f y id d ≤ losses f x id d + bound := by
  rcases h with h | h
  · have he : losses f y id d = losses f x id d := by
      cases d with
      | swapping | teaching => simp only [losses, h]
      | reading => rfl
      | finished result =>
        rcases result with e | _
        · cases e <;> rfl
        · rfl
    omega
  · have hone : ∀ p : Prop, [Decidable p] → (if p then 0 else 1) ≤ 1 := by
      intro p _
      split <;> omega
    cases d with
    | swapping rounds w | teaching rounds w =>
      have h1 := hone (y.server.text? (f.keys.letter id) = some w.raw)
      simp only [losses]
      omega
    | reading => exact Nat.le_add_right _ _
    | finished result =>
      rcases result with e | _
      · cases e <;> exact Nat.le_add_right _ _
      · exact Nat.le_add_right _ _

theorem losses_of_answered {j : Job} {q : Command} {a : q.Answer} (h : Answered f j q a x y m)
    (id : TaskId) (d : Update) :
    losses f y id d ≤ losses f x id d + if writes j q a && j.id == id then 1 else 0 := by
  refine losses_of_letter d _ ?_
  cases h with
  | wrote hw _ _ hother =>
    by_cases hid : j.id = id
    · right
      rw [hw, hid, beq_self_eq_true]
      exact Nat.le_refl 1
    · exact .inl (hother id hid)
  | quiet _ _ hletter => exact .inl (hletter id)

/-- Each update has lost at most as many rounds as others have written since its first command. -/
def Paid (f : Mirror) (s : State) : Prop :=
  ∀ n j decide d, UpdateAt f s n j decide d →
    losses f s.shared j.id d ≤ rivals n j.id (since n s.log)

theorem Paid.answer (h : Paid f s) (hr : Run f.rules { shared := x₀ } s) (g : Going f m s)
    {k : Nat} {j : Job} {q : Command} {next : q.Answer → Work j.Result}
    (asks : s.threads[k]? = some ⟨j, .ask q next⟩) (hj : j.Durable) :
    Paid f (s.answered k j q (s.shared.server.answer s.shared.now q).1 next
      { s.shared with server := (s.shared.server.answer s.shared.now q).2 }) := by
  intro n j' decide d hd
  obtain ⟨w, hn⟩ := hd.thread
  obtain ⟨w', hs⟩ := job_of_answered asks hn
  have hcourse := hd.course
  rcases eq_or_ne k n with rfl | hne
  · -- its own command
    rw [past_answered_self] at hcourse
    obtain ⟨c, hc, step⟩ := hcourse.of_snoc
    have hat : UpdateAt f s k j' decide c := ⟨hd.decides, ⟨w', hs⟩, hc⟩
    have hturn := turn g.inStep (sound_of_course hc) (g.known k j' decide c hat) step rfl
    exact ((losses_of_turn (sound_of_course hc) hturn).trans (h k j' decide c hat)).trans
      (rivals_since_le k j'.id s.log _)
  · rw [past_answered_of_ne hne] at hcourse
    by_cases hpast : s.past n = []
    · -- nothing was asked yet, so nothing is lost
      rw [hpast] at hcourse
      obtain rfl := hcourse.eq_of_nil
      exact Nat.zero_le _
    · have hwas := h n j' decide d ⟨hd.decides, ⟨w', hs⟩, hcourse⟩
      have hle := losses_of_answered (answered hr g asks hj) j'.id d
      show _ ≤ rivals n j'.id (since n (s.log ++ [_]))
      rw [since_append_of_past hpast, rivals_append]
      have hother : (k != n) = true := by simpa using hne
      simp only [writesAt, hother, Bool.and_true]
      exact hle.trans (Nat.add_le_add_right hwas _)

/-- **As many rounds as an update has lost, so many writes of others there were** since its first
command. -/
theorem losses_le_rivals (h : f.InStep x₀ m) (hr : Run f.rules { shared := x₀ } s)
    (hdur : Durable s) {j : Job} {decide : Task → Option Decision} {d : Update}
    (hd : UpdateAt f s n j decide d) :
    losses f s.shared j.id d ≤ rivals n j.id (since n s.log) := by
  suffices key : Durable s → Paid f s from key hdur n j decide d hd
  refine hr.keeps (P := fun s => Durable s → Paid f s) ?_ ?_
  · intro _ n j decide d hd
    simpa using hd.thread
  · intro s t hr ih step hdur
    have ih := ih (hdur.of_step step)
    cases step with
    | move hx =>
      obtain ⟨now, rfl⟩ := hx
      exact fun n j decide d hd => ih n j decide d ⟨hd.decides, hd.thread, hd.course⟩
    | start hx =>
      obtain ⟨-, -, rfl⟩ := hx
      intro n j decide d hd
      obtain ⟨w, hn⟩ := hd.thread
      rcases getElem?_started hn with ⟨-, hs⟩ | ⟨rfl, -⟩
      · exact ih n j decide d ⟨hd.decides, ⟨w, hs⟩, hd.course⟩
      · have hcourse := hd.course
        rw [past_started, hr.past_eq_nil (Nat.le_refl _)] at hcourse
        obtain rfl := hcourse.eq_of_nil
        exact Nat.zero_le _
    | @answer k j q next a x asks hx =>
      obtain ⟨rfl, rfl⟩ := hx
      have hbefore := hdur.of_step (Step.answer (R := f.rules) asks ⟨rfl, rfl⟩)
      exact ih.answer hr (going h hr hbefore) asks (hbefore k j _ asks)

end MailQueue.Mirror

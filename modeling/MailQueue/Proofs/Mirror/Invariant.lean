import MailQueue.Proofs.Mirror.Turn

/-!
# Calls on their way

What holds at every moment of a run.

* `Going` says that server and memory are in step, and that no two insertions and no earlier task
  share an identifier;
* `Answered` is what one command of a call can be: a write, made in memory too, or nothing;
* `answered` says that each command is one of these, and `going` that runs go on so.
-/

namespace MailQueue.Mirror

open Interleaving KeyValue KeyValue.Client

variable {f : Mirror} {m : Memory} {s : State} {x y x₀ : Shared}

structure Going (f : Mirror) (m : Memory) (s : State) : Prop where
  inStep : f.InStep s.shared (replay m s.log)
  plain : ∀ (n : Nat) (j : Job) (w : Work j.Result), s.threads[n]? = some ⟨j, w⟩ → j.Plain
  /-- There is no task yet that an insertion is going to store. -/
  fresh : ∀ (n : Nat) (task : Task) (w : Work (Job.insert task).Result),
    s.threads[n]? = some ⟨.insert task, w⟩ → task.id ∈ s.shared.issued ∧
      (s.past n = [] → (replay m s.log).get? task.id = none)
  apart : ∀ (n n' : Nat) (task task' : Task) (w : Work (Job.insert task).Result)
    (w' : Work (Job.insert task').Result), s.threads[n]? = some ⟨.insert task, w⟩ →
    s.threads[n']? = some ⟨.insert task', w'⟩ → task.id = task'.id → n = n'
  known : ∀ (n : Nat) (j : Job) (decide : Task → Option Decision) (d : Update),
    UpdateAt f s n j decide d → Known s.shared.server.known d

/-! ### One command -/

inductive Answered (f : Mirror) (j : Job) (q : Command) (a : q.Answer) (x y : Shared)
    (m : Memory) : Prop where
  /-- The call writes, here and in memory, and no letter but its own. -/
  | wrote (hw : writes j q a = true) (hsaid : j.said (m.answer j.call).1 = .ok true)
      (hy : f.InStep y (m.answer j.call).2)
      (hother : ∀ id, j.id ≠ id →
        y.server.text? (f.keys.letter id) = x.server.text? (f.keys.letter id))
  | quiet (hw : writes j q a = false) (hy : f.InStep y m)
      (hletter : ∀ id, y.server.text? (f.keys.letter id) = x.server.text? (f.keys.letter id))

theorem writes_get (j : Job) (key : String) (found : Option (Option String)) :
    writes j (.get key) found = false := by
  cases j <;> rfl

theorem writes_load (j : Job) (script : Script) (a : Option Unit) :
    writes j (.load script) a = false := by
  cases j <;> rfl

theorem writes_command (j : Job) (c : Client) (id : TaskId) (w : Swap) (result : RunResult) :
    writes j (Update.command c id w) result = decide (result = .applied 1) := by
  cases result with
  | applied n => cases j <;> simp [writes, Update.command]
  | unknown | failed => cases j <;> rfl

theorem answered_of_turn (h : f.InStep x m) {j : Job} {decide : Task → Option Decision}
    (hd : Decides f.binding j decide) (hp : j.Plain) (hdur : j.Durable) {d e : Update}
    {q : Command} {a : q.Answer} {v : Server} (ht : Turn f j.id decide x d q a e v) :
    Answered f j q a x { x with server := v } m := by
  cases ht with
  | gone | left | read => exact .quiet (writes_get j _ _) h fun _ => rfl
  | unknown | lost => exact .quiet (writes_command j _ _ _ _) h fun _ => rfl
  | taught =>
    exact .quiet (writes_load j _ _) (h.elsewhere ⟨h.calm.failing, h.calm.beforeScript⟩ rfl
      (List.Subset.refl _)) fun _ => rfl
  | won rounds w wasTaught t hraw ht hdec =>
    obtain ⟨hsaid, hy⟩ := h.decided hd hp hdur hraw ht hdec
    obtain ⟨letter, mark, hr⟩ := h.rewrites_script w.decision hraw
    refine .wrote (writes_command j _ _ _ _) hsaid hy fun id hid => ?_
    exact (hr.letters id).trans (if_neg hid)

theorem answered_of_insert (h : f.InStep x m) {task : Task} (hp : (Job.insert task).Plain)
    (hdur : task.Durable) (hm : m.get? task.id = none) (hi : task.id ∈ x.issued) :
    Answered f (.insert task) (.transaction (f.client.insertWrites f.binding task))
      (x.server.answer x.now (.transaction (f.client.insertWrites f.binding task))).1 x
      { x with server :=
        (x.server.answer x.now (.transaction (f.client.insertWrites f.binding task))).2 } m := by
  rw [h.calm.answer_transaction]
  obtain ⟨hsaid, hy⟩ := h.inserted hp hdur hm hi
  have hr := rewrites_insert h.calm h.lasting (c := f.client) rfl x.now f.binding task
  exact .wrote rfl hsaid hy fun id hid => (hr.letters id).trans (if_neg hid)

theorem answer_delete (h : x.server.Calm) (id : TaskId) :
    x.server.answer x.now (.transaction [.del (f.keys.letter id), .del (f.keys.mark id)]) =
      (some [(x.server.del x.now (f.keys.letter id)).1,
          ((x.server.del x.now (f.keys.letter id)).2.del x.now (f.keys.mark id)).1],
        ((x.server.del x.now (f.keys.letter id)).2.del x.now (f.keys.mark id)).2) := by
  rw [h.answer_transaction]
  rfl

theorem InStep.removed (h : f.InStep x m) (id : TaskId) :
    (x.server.del x.now (f.keys.letter id)).1 = if (m.get? id).isSome then 1 else 0 := by
  have hl := congrArg Option.isSome (h.mirrors.letters id)
  rw [Option.isSome_map, Option.isSome_map] at hl
  simp only [Server.del, hl]

theorem answered_of_delete (h : f.InStep x m) (id : TaskId) :
    Answered f (.delete id) (.transaction [.del (f.keys.letter id), .del (f.keys.mark id)])
      (x.server.answer x.now
        (.transaction [.del (f.keys.letter id), .del (f.keys.mark id)])).1 x
      { x with server := (x.server.answer x.now
        (.transaction [.del (f.keys.letter id), .del (f.keys.mark id)])).2 } m := by
  rw [answer_delete h.calm, h.removed]
  have hy := h.deleted id
  have hr : Rewrites f.keys id none none x.server _ := rewrites_del h.calm h.lasting x.now
  rcases hm : m.get? id with _ | t
  · refine .quiet rfl (hy.congr (fun id' => ?_) rfl) fun id' => ?_
    · show m.get? id' = (m.erase id).get? id'
      rw [Memory.get?_erase]
      split
      · next he => rw [← he, hm]
      · rfl
    · refine (hr.letters id').trans ?_
      split
      · next he =>
        have hl := h.mirrors.letters id
        rw [h.get?_letter, hm] at hl
        rw [← he]
        exact (Option.map_eq_none_iff.1 hl).symm
      · rfl
  · refine .wrote rfl ?_ hy fun id' hid => (hr.letters id').trans (if_neg hid)
    show Except.ok (m.get? id).isSome = _
    rw [hm]
    rfl

/-- **Each command writes or does nothing.** -/
theorem answered (h : Run f.rules { shared := x₀ } s) (g : Going f m s) {n : Nat} {j : Job}
    {q : Command} {next : q.Answer → Work j.Result}
    (asks : s.threads[n]? = some ⟨j, .ask q next⟩) (hdur : j.Durable) :
    Answered f j q (s.shared.server.answer s.shared.now q).1 s.shared
      { s.shared with server := (s.shared.server.answer s.shared.now q).2 } (replay m s.log) := by
  have hp := g.plain n j _ asks
  rcases view_of_ask h asks (s.shared.server.answer s.shared.now q).1 with
    ⟨decide, d, e, hd, step⟩ | ⟨task, rfl, hpast, rfl⟩ | ⟨id, rfl, -, rfl⟩
  · have hturn := turn g.inStep (sound_of_course hd.course) (g.known n j decide d hd) step rfl
    exact answered_of_turn g.inStep hd.decides hp hdur hturn
  · obtain ⟨hi, hfresh⟩ := g.fresh n task _ asks
    exact answered_of_insert g.inStep hp hdur (hfresh hpast) hi
  · exact answered_of_delete g.inStep id

/-! ### The store in memory -/

theorem replay_append (m : Memory) (log : List Entry) (e : Entry) :
    replay m (log ++ [e]) =
      if writesAt e then ((replay m log).answer e.job.call).2 else replay m log := by
  simp only [replay, List.foldl_append, List.foldl_cons, List.foldl_nil]

theorem get?_answer_of_none {b : Binding} (hb : m.binding = some b) {id : TaskId}
    (hm : m.get? id = none) {j : Job} (hj : ∀ task, j = .insert task → task.id ≠ id) :
    (m.answer j.call).2.get? id = none := by
  rw [Memory.get?_answer hb, hm]
  refine Memory.effect_none _ _ _ fun task hc => ?_
  cases j with
  | insert task' =>
    obtain rfl := Store.Call.insert.inj hc
    exact hj _ rfl
  | mutate | delete | cancel => cases hc

/-! ### Runs -/

theorem known_mono {known known' : List Script} {d : Update} (h : Known known d)
    (hk : known ⊆ known') : Known known' d := by
  cases d with
  | swapping rounds w wasTaught =>
    cases wasTaught with
    | true => exact hk h
    | false => trivial
  | reading | teaching | finished => trivial

theorem known_of_turn {id : TaskId} {decide : Task → Option Decision} {d e : Update} {q : Command}
    {a : q.Answer} {v : Server} (h : Turn f id decide x d q a e v) : Known v.known e := by
  cases h with
  | taught => exact List.mem_cons_self
  | lost rounds => cases rounds <;> trivial
  | gone | left | read | unknown | won => trivial

theorem known_subset (h : x.server.Calm) (q : Command) :
    x.server.known ⊆ (x.server.answer x.now q).2.known := by
  rw [h.known_answer]
  cases q with
  | load script => exact List.subset_cons_self _ _
  | get | scan | run | transaction | ping => exact List.Subset.refl _

theorem Going.move (g : Going f m s) (now : Int) :
    Going f m { s with shared := { s.shared with now := now } } where
  inStep := g.inStep.elsewhere g.inStep.calm rfl (List.Subset.refl _)
  plain := g.plain
  fresh := g.fresh
  apart := g.apart
  known n j decide d hd := g.known n j decide d ⟨hd.decides, hd.thread, hd.course⟩

theorem Going.start (h : Run f.rules { shared := x₀ } s) (g : Going f m s) {j : Job}
    (hp : j.Plain) (hnew : ∀ id ∈ j.issues, id ∉ s.shared.issued) :
    Going f m (s.started f.rules j { s.shared with issued := j.issues ++ s.shared.issued }) where
  inStep := g.inStep.elsewhere g.inStep.calm rfl (List.subset_append_right _ _)
  plain n j' w hn := by
    rcases getElem?_started hn with ⟨-, hn⟩ | ⟨-, hth⟩
    · exact g.plain n j' w hn
    · obtain ⟨rfl, -⟩ := Thread.mk.inj hth
      exact hp
  fresh n task w hn := by
    rcases getElem?_started hn with ⟨-, hn⟩ | ⟨-, hth⟩
    · obtain ⟨hi, hfresh⟩ := g.fresh n task w hn
      exact ⟨List.mem_append_right _ hi, hfresh⟩
    · obtain ⟨rfl, -⟩ := Thread.mk.inj hth
      have hid := hnew task.id List.mem_cons_self
      refine ⟨List.mem_append_left _ List.mem_cons_self, fun _ => ?_⟩
      rcases hg : (replay m s.log).get? task.id with _ | t
      · exact hg
      · exact absurd (g.inStep.issued task.id t hg) hid
  apart n n' task task' w w' hn hn' he := by
    rcases getElem?_started hn with ⟨-, hs⟩ | ⟨rfl, hth⟩
    · rcases getElem?_started hn' with ⟨-, hs'⟩ | ⟨-, hth⟩
      · exact g.apart n n' task task' w w' hs hs' he
      · obtain ⟨rfl, -⟩ := Thread.mk.inj hth
        exact absurd (he ▸ (g.fresh n task w hs).1) (hnew task'.id List.mem_cons_self)
    · obtain ⟨rfl, -⟩ := Thread.mk.inj hth
      rcases getElem?_started hn' with ⟨-, hs'⟩ | ⟨rfl, -⟩
      · exact absurd (he ▸ (g.fresh n' task' w' hs').1) (hnew task.id List.mem_cons_self)
      · rfl
  known n j' decide d hd := by
    obtain ⟨w, hn⟩ := hd.thread
    rcases getElem?_started hn with ⟨-, hn⟩ | ⟨rfl, -⟩
    · exact g.known n j' decide d ⟨hd.decides, ⟨w, hn⟩, hd.course⟩
    · have hcourse := hd.course
      rw [past_started, h.past_eq_nil (Nat.le_refl _)] at hcourse
      obtain rfl := hcourse.eq_of_nil
      trivial

theorem Going.answer (h : Run f.rules { shared := x₀ } s) (g : Going f m s) {n : Nat} {j : Job}
    {q : Command} {next : q.Answer → Work j.Result}
    (asks : s.threads[n]? = some ⟨j, .ask q next⟩) (hdur : j.Durable) :
    Going f m (s.answered n j q (s.shared.server.answer s.shared.now q).1 next
      { s.shared with server := (s.shared.server.answer s.shared.now q).2 }) where
  inStep := by
    show f.InStep _ (replay m (s.log ++ [_]))
    rw [replay_append]
    cases answered h g asks hdur with
    | wrote hw _ hy _ => rw [writesAt, if_pos hw]; exact hy
    | quiet hw hy _ => rw [writesAt, hw]; exact hy
  plain k j' w hk := by
    obtain ⟨w', hk⟩ := job_of_answered asks hk
    exact g.plain k j' w' hk
  fresh k task w hk := by
    obtain ⟨w', hk'⟩ := job_of_answered asks hk
    obtain ⟨hi, hfresh⟩ := g.fresh k task w' hk'
    refine ⟨hi, fun hpast => ?_⟩
    rcases eq_or_ne n k with rfl | hne
    · rw [past_answered_self] at hpast
      simp at hpast
    · -- only another insertion could store the task, and it bears another identifier
      rw [past_answered_of_ne hne] at hpast
      show (replay m (s.log ++ [_])).get? task.id = none
      rw [replay_append]
      split
      · refine get?_answer_of_none g.inStep.binding (hfresh hpast) fun task' hj he => ?_
        have hj : j = .insert task' := hj
        subst hj
        exact hne (g.apart n k task' task _ w' asks hk' he)
      · exact hfresh hpast
  apart k k' task task' w w' hk hk' he := by
    obtain ⟨v, hk⟩ := job_of_answered asks hk
    obtain ⟨v', hk'⟩ := job_of_answered asks hk'
    exact g.apart k k' task task' v v' hk hk' he
  known k j' decide d hd := by
    obtain ⟨w, hk⟩ := hd.thread
    obtain ⟨w', hk'⟩ := job_of_answered asks hk
    have hcourse := hd.course
    rcases eq_or_ne n k with rfl | hne
    · rw [past_answered_self] at hcourse
      obtain ⟨c, hc, step⟩ := hcourse.of_snoc
      have hknown := g.known n j' decide c ⟨hd.decides, ⟨w', hk'⟩, hc⟩
      exact known_of_turn (turn g.inStep (sound_of_course hc) hknown step rfl)
    · rw [past_answered_of_ne hne] at hcourse
      exact known_mono (g.known k j' decide d ⟨hd.decides, ⟨w', hk'⟩, hcourse⟩)
        (known_subset g.inStep.calm q)

def Durable (s : State) : Prop :=
  ∀ (n : Nat) (j : Job) (w : Work j.Result), s.threads[n]? = some ⟨j, w⟩ → j.Durable

theorem Durable.of_step {s t : State} (hd : Durable t) (step : Step f.rules s t) : Durable s := by
  intro n j w hn
  obtain ⟨w', hn'⟩ := step.job_stays hn
  exact hd n j w' hn'

/-- **Runs go on so.** -/
theorem going (h : f.InStep x₀ m) (hr : Run f.rules { shared := x₀ } s) (hd : Durable s) :
    Going f m s := by
  refine hr.keeps (P := fun s => Durable s → Going f m s) (fun _ => ?_) (fun hr ih step hd => ?_) hd
  · exact ⟨h, by simp, by simp, by simp, fun n j decide d hd => by simpa using hd.thread⟩
  · have g := ih (hd.of_step step)
    cases step with
    | move hx =>
      obtain ⟨now, rfl⟩ := hx
      exact g.move now
    | start hx =>
      obtain ⟨hp, hnew, rfl⟩ := hx
      exact g.start hr hp hnew
    | @answer n j q next a x asks hx =>
      obtain ⟨rfl, rfl⟩ := hx
      obtain ⟨w, hn⟩ := (Step.answer (R := f.rules) asks ⟨rfl, rfl⟩).job_stays asks
      exact g.answer hr asks (hd n j w hn)

end MailQueue.Mirror

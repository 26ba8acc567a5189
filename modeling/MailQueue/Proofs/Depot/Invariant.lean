import MailQueue.Proofs.Depot.Calls

/-!
# Who may write the letter of a task

What holds at every moment of a run over a server.

* `Going` says it: the letter of a task that is held is not open, no two jobs hold the same task,
  and there is no letter yet under an identifier that was only handed out;
* `Answered` is what one answer can be: it writes nothing, hands out an identifier, or rewrites one
  letter for a reason; `answered` is the proof;
* `Going.resolved`: whoever rewrites the letter of a task that is held resolves it;
* `going`: runs go on so.
-/

namespace MailQueue.Depot

open KeyValue Interleaving
open Mirror (Rewrites)

variable {d : Depot} {s : State} {x₀ : Shared} {n m : Nat} {id : TaskId}

structure Going (d : Depot) (s : State) : Prop where
  calm : s.shared.server.Calm
  lasting : ∀ id, s.shared.server.Lasting (d.keys.letter id) ∧
    s.shared.server.Lasting (d.keys.mark id)
  issued : ∀ id, (s.shared.server.text? (d.keys.letter id)).isSome → id ∈ s.shared.issued
  handed : ∀ n id, ⟨.own .freshId, id⟩ ∈ s.past n → id ∈ s.shared.issued
  apart : ∀ n m id, ⟨.own .freshId, id⟩ ∈ s.past n → ⟨.own .freshId, id⟩ ∈ s.past m → n = m
  /-- There is no letter yet that a request is going to store. -/
  fresh : ∀ n id, Pending id (s.past n) → s.shared.server.text? (d.keys.letter id) = none
  held : ∀ n id, Holds id (s.past n) →
    ∃ raw, s.shared.server.text? (d.keys.letter id) = some raw ∧ Shut raw
  sole : ∀ n m id, Holds id (s.past n) → Holds id (s.past m) → n = m

/-! ### Lists of answers -/

section Past

variable {l : List Exchange} {x : Exchange}

theorem holds_of_append (h : Holds id (l ++ [x])) :
    (Holds id l ∨ writesFor claimed? id x = true) ∧ writesFor resolved? id x = false := by
  obtain ⟨⟨y, hy, hc⟩, hr⟩ := h
  refine ⟨?_, hr x (by simp)⟩
  rcases List.mem_append.1 hy with hy | hy
  · exact .inl ⟨⟨y, hy, hc⟩, fun z hz => hr z (List.mem_append_left _ hz)⟩
  · obtain rfl := List.mem_singleton.1 hy
    exact .inr hc

theorem pending_of_append (h : Pending id (l ++ [x])) :
    (Pending id l ∨ x = ⟨.own .freshId, id⟩) ∧ writesFor inserted? id x = false := by
  obtain ⟨hm, hi⟩ := h
  refine ⟨?_, hi x (by simp)⟩
  rcases List.mem_append.1 hm with hm | hm
  · exact .inl ⟨hm, fun z hz => hi z (List.mem_append_left _ hz)⟩
  · exact .inr (List.mem_singleton.1 hm).symm

end Past

section Answered

variable {j : Job} {q : Ask} {a : q.Answer} {next : q.Answer → Work j.Result} {y : Shared}

theorem mem_past_answered {x : Exchange} (h : x ∈ (s.answered n j q a next y).past m) :
    x ∈ s.past m ∨ n = m ∧ x = ⟨q, a⟩ := by
  rcases eq_or_ne n m with rfl | hne
  · rw [past_answered_self] at h
    exact (List.mem_append.1 h).imp_right fun h => ⟨rfl, List.mem_singleton.1 h⟩
  · rw [past_answered_of_ne hne] at h
    exact .inl h

theorem holds_answered (h : Holds id ((s.answered n j q a next y).past m)) :
    (Holds id (s.past m) ∨ n = m ∧ writesFor claimed? id ⟨q, a⟩ = true) ∧
      (n = m → writesFor resolved? id ⟨q, a⟩ = false) := by
  rcases eq_or_ne n m with rfl | hne
  · rw [past_answered_self] at h
    obtain ⟨h, hr⟩ := holds_of_append h
    exact ⟨h.imp_right fun hc => ⟨rfl, hc⟩, fun _ => hr⟩
  · rw [past_answered_of_ne hne] at h
    exact ⟨.inl h, fun he => absurd he hne⟩

theorem pending_answered (h : Pending id ((s.answered n j q a next y).past m)) :
    (Pending id (s.past m) ∨ (⟨q, a⟩ : Exchange) = ⟨.own .freshId, id⟩) ∧
      (n = m → writesFor inserted? id ⟨q, a⟩ = false) := by
  rcases eq_or_ne n m with rfl | hne
  · rw [past_answered_self] at h
    obtain ⟨h, hi⟩ := pending_of_append h
    exact ⟨h, fun _ => hi⟩
  · rw [past_answered_of_ne hne] at h
    exact ⟨.inl h, fun he => absurd he hne⟩

/-! ### One answer -/

inductive Answered (d : Depot) (s : State) (n : Nat) : Exchange → Shared → Prop where
  | quiet {x : Exchange} {y : Shared} (hw : ∀ kind id, writesFor kind id x = false)
      (hx : ∀ id, x ≠ ⟨.own .freshId, id⟩) (hc : y.server.Calm)
      (he : y.server.entries = s.shared.server.entries) (hi : y.issued = s.shared.issued) :
      Answered d s n x y
  | named (id : TaskId) (h : id ∉ s.shared.issued) :
      Answered d s n ⟨.own .freshId, id⟩ { s.shared with issued := id :: s.shared.issued }
  | wrote {call : Store.Call} {c : Command} {rest : c.Answer → KeyValue.Work call.Answer}
      {a : c.Answer} {id : TaskId} {o : Option Task} {mark : Option String} {w : Server}
      (hat : At d s n call (.ask c rest)) (hw : wrote c a = true)
      (why : Reason d s.shared.server call id o)
      (hr : Rewrites d.keys id (o.map Task.letter) mark s.shared.server w)
      (hk : ∀ id', d.keys.letter id' ∈ keysOf c ∨ d.keys.mark id' ∈ keysOf c → id' = id) :
      Answered d s n ⟨.command call c, a⟩ { s.shared with server := w }

/-- **Each answer is one of these.** -/
theorem answered (hr : Run d.rules { shared := x₀ } s) (g : Going d s)
    (asks : s.threads[n]? = some ⟨j, .ask q next⟩) (hx : d.rules.answers j q s.shared a y) :
    Answered d s n ⟨q, a⟩ y := by
  have hx : d.Answers j.queue s.shared q a y := hx
  cases hx with
  | now | pick | send | tell =>
    exact .quiet (fun _ _ => rfl) (fun _ h => by cases h) g.calm rfl rfl
  | returned => exact .quiet (fun _ _ => rfl) (fun _ h => by cases h) g.calm rfl rfl
  | freshId id h => exact .named id h
  | scan =>
    refine .quiet (fun kind id => ?_) (fun _ h => by cases h) g.calm rfl rfl
    simp [writesFor, Depot.wrote]
  | command call c =>
    obtain ⟨rest, hat⟩ := (at_of_asks hr asks).1 call c rfl
    cases effect g.calm g.lasting hat.sends s.shared.now with
    | quiet hw he =>
      refine .quiet (fun kind id => ?_) (fun _ h => by cases h) (g.calm.answer _ _) he rfl
      simp [writesFor, hw]
    | rewrites hw why hrw hk => exact .wrote hat hw why hrw hk

variable {x : Exchange}

/-- The letter of a task stays as it is, or was rewritten for a reason. -/
theorem Answered.text (h : Answered d s n x y) (id : TaskId) :
    y.server.text? (d.keys.letter id) = s.shared.server.text? (d.keys.letter id) ∨
      ∃ (call : Store.Call) (c : Command) (rest : c.Answer → KeyValue.Work call.Answer)
        (a : c.Answer) (o : Option Task), x = ⟨.command call c, a⟩ ∧ Depot.wrote c a = true ∧
        At d s n call (.ask c rest) ∧ Reason d s.shared.server call id o ∧
        y.server.text? (d.keys.letter id) = o.map Task.letter := by
  cases h with
  | quiet _ _ _ he => exact .inl (by simp only [Server.text?, he])
  | named => exact .inl rfl
  | wrote hat hw why hr hk =>
    rw [hr.letters]
    split
    · next hid =>
      obtain rfl := hid
      exact .inr ⟨_, _, _, _, _, rfl, hw, hat, why, rfl⟩
    · exact .inl rfl

theorem Answered.issued (h : Answered d s n x y) : s.shared.issued ⊆ y.issued := by
  cases h with
  | quiet _ _ _ _ hi => exact hi ▸ List.Subset.refl _
  | named => exact List.subset_cons_self _ _
  | wrote => exact List.Subset.refl _

/-- A claim that succeeds leaves a letter that says the task is not open. -/
theorem Answered.claim (h : Answered d s n x y) (hx : writesFor claimed? id x = true) :
    ∃ (call : Store.Call) (c : Command) (rest : c.Answer → KeyValue.Work call.Answer)
      (o : Option Task), At d s n call (.ask c rest) ∧ Reason d s.shared.server call id o ∧
      claimed? call = some id ∧
      ∃ raw, y.server.text? (d.keys.letter id) = some raw ∧ Shut raw := by
  cases h with
  | quiet hw => rw [hw] at hx; cases hx
  | named => cases hx
  | @wrote call c rest a id' o mark w hat hw why hr hk =>
    have hclaim : claimed? call = some id := by
      simp only [writesFor, Bool.and_eq_true, beq_iff_eq] at hx
      exact hx.1
    obtain ⟨⟨previous, attempts, rfl⟩, -⟩ := hat.permits.claims id hclaim
    cases why with
    | swapped hu sw hraw ht hd =>
      cases hu
      obtain ⟨u, hu, hshut⟩ := shut_of_claim ht hd
      refine ⟨_, c, rest, _, hat, .swapped (.mutate id _) sw hraw ht hd, rfl, u.letter, ?_, hshut⟩
      exact (hr.letters id).trans (by rw [if_pos rfl, hu]; rfl)
    | inserted _ hc => cases hc
    | deleted _ hc => cases hc

end Answered

/-! ### What one answer keeps -/

/-- No call claims and resolves. -/
theorem not_resolved_of_claimed {call : Store.Call} (h : claimed? call = some id) :
    resolved? call = none := by
  cases call with
  | mutate id' p =>
    simp only [claimed?] at h
    split at h
    · next hg => simp [resolved?, hg]
    · cases h
  | _ => cases h

namespace Going

/-- **Whoever rewrites the letter of a task that is held resolves it.** -/
theorem resolved (g : Going d s) {call : Store.Call} {c : Command}
    {rest : c.Answer → KeyValue.Work call.Answer} (hat : At d s n call (.ask c rest))
    {o : Option Task} (why : Reason d s.shared.server call id o) (hm : Holds id (s.past m)) :
    resolved? call = some id := by
  obtain ⟨raw, hraw, hshut⟩ := g.held m id hm
  cases why with
  | swapped hu w hw ht hd =>
    by_contra hr
    have hraw' : raw = w.raw := Option.some.inj (hraw.symm.trans hw)
    have hclosed := hshut _ (hraw' ▸ ht)
    rw [isOpen_of_updates hu hr hd] at hclosed
    cases hclosed
  | inserted task hc =>
    have hnone := g.fresh n task.id (hat.pending (by rw [hc]; rfl))
    rw [hraw] at hnone
    cases hnone
  | deleted _ hc => rw [hc]; rfl

theorem eq_of_reason (g : Going d s) {call : Store.Call} {c : Command}
    {rest : c.Answer → KeyValue.Work call.Answer} (hat : At d s n call (.ask c rest))
    {o : Option Task} (why : Reason d s.shared.server call id o) (hm : Holds id (s.past m)) :
    n = m :=
  g.sole n m id (hat.holds (g.resolved hat why hm)) hm

variable {j : Job} {q : Ask} {a : q.Answer} {next : q.Answer → Work j.Result} {y : Shared}

theorem lasting_answered (g : Going d s) {x : Exchange} (h : Answered d s n x y) (id : TaskId) :
    y.server.Lasting (d.keys.letter id) ∧ y.server.Lasting (d.keys.mark id) := by
  cases h with
  | quiet _ _ _ he =>
    simp only [Server.Lasting, he]
    exact g.lasting id
  | named => exact g.lasting id
  | wrote _ _ _ hr => exact hr.lasting id

theorem calm_answered (g : Going d s) {x : Exchange} (h : Answered d s n x y) : y.server.Calm := by
  cases h with
  | quiet _ _ hc => exact hc
  | named => exact g.calm
  | wrote _ _ _ hr => exact hr.calm

theorem issued_answered (g : Going d s) {x : Exchange} (h : Answered d s n x y)
    (hs : (y.server.text? (d.keys.letter id)).isSome) : id ∈ y.issued := by
  refine h.issued ?_
  rcases h.text id with he | ⟨call, c, rest, a, o, -, -, hat, why, he⟩ <;> rw [he] at hs
  · exact g.issued id hs
  · cases why with
    | swapped _ w hw => exact g.issued id (by rw [hw]; rfl)
    | inserted task hc => exact g.handed n task.id (hat.pending (by rw [hc]; rfl)).1
    | deleted => cases hs

theorem fresh_answered (g : Going d s) (h : Answered d s n ⟨q, a⟩ y)
    (hp : Pending id ((s.answered n j q a next y).past m)) :
    y.server.text? (d.keys.letter id) = none := by
  obtain ⟨hp, hi⟩ := pending_answered hp
  rcases hp with hp | hx
  · have hnone := g.fresh m id hp
    rcases h.text id with he | ⟨call, c, rest, a', o, hx, hw, hat, why, he⟩
    · rw [he, hnone]
    · cases why with
      | swapped _ w hraw => rw [hraw] at hnone; cases hnone
      | deleted => exact he
      | inserted task hc =>
        -- only the request that was given the identifier stores a task under it
        have hins : inserted? call = some task.id := by rw [hc]; rfl
        have hfalse := hi (g.apart n m task.id (hat.pending hins).1 hp.1)
        rw [hx] at hfalse
        simp [writesFor, hins, hw] at hfalse
  · cases h with
    | quiet _ hne => exact absurd hx (hne id)
    | wrote => cases hx
    | named id' hnew =>
      cases hx
      show s.shared.server.text? (d.keys.letter id) = none
      by_contra hsome
      exact hnew (g.issued id (Option.isSome_iff_ne_none.2 hsome))

theorem held_answered (g : Going d s) (h : Answered d s n ⟨q, a⟩ y)
    (hh : Holds id ((s.answered n j q a next y).past m)) :
    ∃ raw, y.server.text? (d.keys.letter id) = some raw ∧ Shut raw := by
  obtain ⟨hh, hr⟩ := holds_answered hh
  rcases hh with hh | ⟨-, hc⟩
  · rcases h.text id with he | ⟨call, c, rest, a', o, hx, hw, hat, why, -⟩
    · rw [he]
      exact g.held m id hh
    · -- the holder itself has written, so it holds the task no more
      have hfalse := hr (g.eq_of_reason hat why hh)
      rw [hx] at hfalse
      simp [writesFor, g.resolved hat why hh, hw] at hfalse
  · obtain ⟨-, -, -, -, -, -, -, hraw⟩ := h.claim hc
    exact hraw

theorem sole_answered (g : Going d s) (h : Answered d s n ⟨q, a⟩ y) {m' : Nat}
    (hh : Holds id ((s.answered n j q a next y).past m))
    (hh' : Holds id ((s.answered n j q a next y).past m')) : m = m' := by
  -- a task that is held is not claimed
  have hno : ∀ {k}, Holds id (s.past k) → ¬ writesFor claimed? id ⟨q, a⟩ = true := by
    intro k hk hc
    obtain ⟨call, c, rest, o, hat, why, hclaim, -⟩ := h.claim hc
    have hr := g.resolved hat why hk
    rw [not_resolved_of_claimed hclaim] at hr
    cases hr
  rcases (holds_answered hh).1 with hm | ⟨hm, hc⟩ <;>
    rcases (holds_answered hh').1 with hm' | ⟨hm', hc'⟩
  · exact g.sole m m' id hm hm'
  · exact absurd hc' (hno hm)
  · exact absurd hc (hno hm')
  · exact hm.symm.trans hm'

theorem apart_answered (g : Going d s) (h : Answered d s n ⟨q, a⟩ y) {m' : Nat}
    (hm : ⟨.own .freshId, id⟩ ∈ (s.answered n j q a next y).past m)
    (hm' : ⟨.own .freshId, id⟩ ∈ (s.answered n j q a next y).past m') : m = m' := by
  have hno : ∀ {k}, ⟨.own .freshId, id⟩ ∈ s.past k →
      ¬ (⟨.own .freshId, id⟩ : Exchange) = ⟨q, a⟩ := by
    intro k hk hx
    rw [← hx] at h
    cases h with
    | quiet _ hne => exact hne id rfl
    | named _ hnew => exact hnew (g.handed k id hk)
  rcases mem_past_answered hm with hm | ⟨hm, hx⟩ <;>
    rcases mem_past_answered hm' with hm' | ⟨hm', hx'⟩
  · exact g.apart m m' id hm hm'
  · exact absurd hx' (hno hm)
  · exact absurd hx (hno hm')
  · exact hm.symm.trans hm'

theorem handed_answered (g : Going d s) (h : Answered d s n ⟨q, a⟩ y)
    (hm : ⟨.own .freshId, id⟩ ∈ (s.answered n j q a next y).past m) : id ∈ y.issued := by
  rcases mem_past_answered hm with hm | ⟨-, hx⟩
  · exact h.issued (g.handed m id hm)
  · rw [← hx] at h
    cases h with
    | quiet _ hne => exact absurd rfl (hne id)
    | named => exact List.mem_cons_self

theorem answer (g : Going d s) (h : Answered d s n ⟨q, a⟩ y) :
    Going d (s.answered n j q a next y) where
  calm := g.calm_answered h
  lasting := g.lasting_answered h
  issued _ hs := g.issued_answered h hs
  handed _ _ hm := g.handed_answered h hm
  apart _ _ _ hm hm' := g.apart_answered h hm hm'
  fresh _ _ hp := g.fresh_answered h hp
  held _ _ hh := g.held_answered h hh
  sole _ _ _ hh hh' := g.sole_answered h hh hh'

end Going

/-! ### Runs -/

theorem going_first (h : d.Opens x₀) : Going d { shared := x₀ } where
  calm := h.calm
  lasting := h.lasting
  issued := h.issued
  handed _ _ hm := absurd hm List.not_mem_nil
  apart _ _ _ hm := absurd hm List.not_mem_nil
  fresh _ _ hp := absurd hp.1 List.not_mem_nil
  held _ _ hh := by
    obtain ⟨⟨x, hx, -⟩, -⟩ := hh
    exact absurd hx List.not_mem_nil
  sole _ _ _ hh := by
    obtain ⟨⟨x, hx, -⟩, -⟩ := hh
    exact absurd hx List.not_mem_nil

/-- **Runs go on so.** -/
theorem going (h : d.Opens x₀) (hr : Run d.rules { shared := x₀ } s) : Going d s := by
  refine hr.keeps (going_first h) fun hr g step => ?_
  cases step with
  | move hx =>
    obtain ⟨now, rfl⟩ := hx
    exact ⟨g.calm, g.lasting, g.issued, g.handed, g.apart, g.fresh, g.held, g.sole⟩
  | start hx =>
    obtain ⟨rfl, -⟩ := hx
    exact ⟨g.calm, g.lasting, g.issued, g.handed, g.apart, g.fresh, g.held, g.sole⟩
  | answer asks hx => exact g.answer (answered hr g asks hx)

end MailQueue.Depot

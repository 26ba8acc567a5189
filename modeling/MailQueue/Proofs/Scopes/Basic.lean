import MailQueue.Proofs.Mirror.Turn
import MailQueue.Proofs.Scopes.Keys

/-!
# Scopes that share a server

Calls of the stores of any number of scopes, side by side on one server. One step is one command of
one call, and the time of the server may change in between.

* `Scopes.Job` is a call that writes, of the store of one scope, and `Scopes.rules` are the rules by
  which calls start and commands are answered;
* `Asks` says what a call asks for, and `asks_of_run` that it asks for nothing else;
* `Kept` says what stands on the server for one scope: per task a letter and a mark;
* `Kept.answer`: one command of any call keeps it so, and `kept_of_run`: so does a run, as long as
  no pointer of another scope is of concern.
-/

namespace MailQueue.Scopes

open Interleaving KeyValue KeyValue.Client
open Mirror (Touches mark? task? pointerKey?)

/-! ### Calls -/

/-- A call of the store of a scope. -/
structure Job where
  store : Mirror
  request : Mirror.Job

namespace Job

@[reducible] def Result (j : Job) : Type := j.request.Result

/-- An inserted task is open, and a transport is a word of 64 bits. -/
def Fair (j : Job) : Prop :=
  match j.request with
  | .insert task => task.isOpen = true ∧ task.transport < UInt64.size
  | .mutate _ patch => ∀ n, patch.transport = some n → n < UInt64.size
  | _ => True

/-- The key of the pointer that a call may set. -/
def pointer? (j : Job) : Option String :=
  match j.request with
  | .insert task => pointerKey? j.store.client j.store.binding task
  | _ => none

end Job

structure Shared where
  server : Server
  /-- The time of the server, in milliseconds. -/
  now : Int

abbrev State := Interleaving.State Command Command.Answer Job Job.Result Shared

/-- The rules for calls, which start at any time. -/
def rules : Rules Command Command.Answer Job Job.Result Shared where
  work j := j.store.client.answer j.request.call
  starts s j x := j.Fair ∧ x = s.shared
  answers _ q x a y := a = (x.server.answer x.now q).1 ∧
    y = { x with server := (x.server.answer x.now q).2 }
  moves x y := ∃ now, y = { x with now := now }

/-! ### What a call asks for -/

/-- The task has this identifier, and its transport is a word of 64 bits. -/
def Fits (id : TaskId) (t : Task) : Prop := t.id = id ∧ t.transport < UInt64.size

/-- What a call asks for. A script replaces a letter that was read by one for the same task. -/
inductive Asks (j : Job) : Command → Prop where
  | look (key : String) : Asks j (.get key)
  | teach (script : Script) : Asks j (.load script)
  | swap (w : Swap) (t : Task) (h : Task.ofLetter w.raw = some t)
      (fits : Fits j.request.id t → ∀ u, task? w.decision = some u → Fits j.request.id u) :
      Asks j (Update.command j.store.client j.request.id w)
  | insert (task : Task) (h : j.request = .insert task) :
      Asks j (.transaction (j.store.client.insertWrites j.store.binding task))
  | delete (id : TaskId) :
      Asks j (.transaction [.del (j.store.keys.letter id), .del (j.store.keys.mark id)])

section Decisions

variable {id : TaskId} {t u : Task} {d : Decision}

theorem fits_of_patchDecision {p : Patch} (hp : ∀ n, p.transport = some n → n < UInt64.size)
    (hd : patchDecision p t = some d) (ht : Fits id t) (hu : task? d = some u) : Fits id u := by
  obtain ⟨v, ha, rfl⟩ := Option.map_eq_some_iff.1 hd
  obtain rfl := Option.some.inj hu
  unfold Patch.applied? at ha
  split at ha
  · obtain rfl := Option.some.inj ha
    refine ⟨ht.1, ?_⟩
    show p.transport.getD t.transport < UInt64.size
    rcases hn : p.transport with _ | n
    · exact ht.2
    · exact hp n hn
  · cases ha

theorem fits_of_cancelDecision {b : Binding} (hd : cancelDecision b t = some d) (ht : Fits id t)
    (hu : task? d = some u) : Fits id u := by
  unfold cancelDecision at hd
  split at hd
  · cases hd
  · split at hd <;> obtain rfl := Option.some.inj hd
    · obtain rfl := Option.some.inj hu
      exact ht
    · cases hu

end Decisions

variable {j : Job} {s : State} {x₀ : Shared}

theorem fair_of_run (hr : Run rules { shared := x₀ } s) {n : Nat} {w : Work j.Result}
    (hn : s.threads[n]? = some ⟨j, w⟩) : j.Fair := by
  induction hr generalizing n j w with
  | refl => simp at hn
  | snoc hr step ih =>
    cases step with
    | move => exact ih hn
    | start hx =>
      rcases getElem?_started hn with ⟨-, hn⟩ | ⟨-, hth⟩
      · exact ih hn
      · obtain ⟨rfl, -⟩ := Thread.mk.inj hth
        exact hx.1
    | answer asks =>
      obtain ⟨w', hn⟩ := job_of_answered asks hn
      exact ih hn

/-- **A call asks for nothing else.** -/
theorem asks_of_run (hr : Run rules { shared := x₀ } s) {n : Nat} {q : Command}
    {next : q.Answer → Work j.Result} (asks : s.threads[n]? = some ⟨j, .ask q next⟩) :
    Asks j q := by
  have hfair := fair_of_run hr asks
  have hasks : Mirror.Asks j.store j.request q := Mirror.asks_of_path (hr.path asks)
  cases hasks with
  | look key => exact .look key
  | teach script => exact .teach script
  | swap w t decide hj ht hd =>
    refine .swap w t ht fun hfit u hu => ?_
    obtain ⟨f, request⟩ := j
    cases hj with
    | mutate id p => exact fits_of_patchDecision hfair hd hfit hu
    | cancel id => exact fits_of_cancelDecision hd hfit hu
  | insert task hj => exact .insert task hj
  | delete id hj => exact .delete id

/-! ### What stands for a scope -/

/-- What stands under the letter and the mark of a task, if there is one. -/
structure Stands (k : Keys) (s : Server) (id : TaskId) (o : Option Task) : Prop where
  letter : s.text? (k.letter id) = o.map Task.letter
  mark : s.text? (k.mark id) = o.bind mark?
  fits : ∀ t, o = some t → Fits id t

/-- What stands on a server for one scope: per task a letter and a mark, which do not expire, and
nothing else that is read as a mark. -/
structure Kept (k : Keys) (s : Server) : Prop where
  calm : s.Calm
  lasting : ∀ id, s.Lasting (k.letter id) ∧ s.Lasting (k.mark id)
  stands : ∀ id, ∃ o, Stands k s id o
  only : ∀ e ∈ s.entries, ∀ id, k.idOfMark? e.1 = some id → e.1 = k.mark id

namespace Kept

variable {g k : Keys} {v w : Server} {id : TaskId} {letter mark pointer : Option String}

theorem of_nil (hc : v.Calm) (he : v.entries = []) : Kept k v where
  calm := hc
  lasting id := by simp [Server.Lasting, he]
  stands id := ⟨none, by simp [Server.text?, he], by simp [Server.text?, he], by simp⟩
  only := by simp [he]

theorem congr (h : Kept k v) (hc : w.Calm) (he : w.entries = v.entries) : Kept k w where
  calm := hc
  lasting id := by
    simp only [Server.Lasting, he]
    exact h.lasting id
  stands id := by
    obtain ⟨o, ho⟩ := h.stands id
    exact ⟨o, by simp only [Server.text?, he]; exact ho.letter,
      by simp only [Server.text?, he]; exact ho.mark, ho.fits⟩
  only := by
    rw [he]
    exact h.only

/-- A write leaves the keys of the scope to last if its pointer is of no concern. -/
theorem lasting_of_touches (h : Kept k v) (ht : Touches g id letter mark pointer v w)
    (hp : ∀ key, pointer = some key → k.Foreign key) (id' : TaskId) :
    w.Lasting (k.letter id') ∧ w.Lasting (k.mark id') :=
  ⟨(ht.texts _ (h.lasting id').1 fun he => (hp _ he).letter id' rfl).1,
    (ht.texts _ (h.lasting id').2 fun he => (hp _ he).ne_mark id' rfl).1⟩

/-- A write leaves nothing else that is read as a mark. -/
theorem only_of_touches (h : Kept k v) (ht : Touches g id letter mark pointer v w)
    (hp : ∀ key, pointer = some key → k.Foreign key) :
    ∀ e ∈ w.entries, ∀ id', k.idOfMark? e.1 = some id' → e.1 = k.mark id' := by
  intro e he id' hid
  rcases ht.entries e he with hm | hl | hkey | hv
  · rw [hm] at hid ⊢
    exact Keys.mark_eq_of_idOfMark? hid
  · rw [hl, Keys.idOfMark?_letter] at hid
    cases hid
  · rw [(hp _ hkey).mark] at hid
    cases hid
  · exact h.only e hv id' hid

theorem own (h : Kept k v) {o : Option Task}
    (ht : Touches k id (o.map Task.letter) (o.bind mark?) pointer v w)
    (hp : ∀ key, pointer = some key → k.Foreign key) (ho : ∀ t, o = some t → Fits id t) :
    Kept k w where
  calm := ht.calm
  lasting := h.lasting_of_touches ht hp
  stands id' := by
    have hletter := (ht.texts _ (h.lasting id').1 fun he => (hp _ he).letter id' rfl).2
    have hmark := (ht.texts _ (h.lasting id').2 fun he => (hp _ he).ne_mark id' rfl).2
    rw [if_neg fun he => Keys.letter_ne_mark id' id he.symm] at hletter
    by_cases hid : id = id'
    · subst hid
      exact ⟨o, hletter.trans (if_pos rfl), hmark.trans (if_pos rfl), ho⟩
    · obtain ⟨o', ho'⟩ := h.stands id'
      rw [if_neg fun he => hid (Keys.letter_injective he)] at hletter
      rw [if_neg fun he => hid (Keys.mark_injective he), if_neg (Keys.letter_ne_mark id id')]
        at hmark
      exact ⟨o', hletter.trans ho'.letter, hmark.trans ho'.mark, ho'.fits⟩
  only := h.only_of_touches ht hp

theorem other (h : Kept k v) (hg : g ≠ k) (ht : Touches g id letter mark pointer v w)
    (hp : ∀ key, pointer = some key → k.Foreign key) : Kept k w where
  calm := ht.calm
  lasting := h.lasting_of_touches ht hp
  stands id' := by
    have hmarks := Keys.foreign_mark hg id
    have hletters := Keys.foreign_letter hg id
    have hletter := (ht.texts _ (h.lasting id').1 fun he => (hp _ he).letter id' rfl).2
    have hmark := (ht.texts _ (h.lasting id').2 fun he => (hp _ he).ne_mark id' rfl).2
    rw [if_neg (hmarks.letter id'), if_neg (hletters.letter id')] at hletter
    rw [if_neg (hmarks.ne_mark id'), if_neg (hletters.ne_mark id')] at hmark
    obtain ⟨o, ho⟩ := h.stands id'
    exact ⟨o, hletter.trans ho.letter, hmark.trans ho.mark, ho.fits⟩
  only := h.only_of_touches ht hp

/-- The letter that stands for a task is read as that task, to the millisecond. -/
theorem fits_of_read (h : Kept k v) {raw : String} {t : Task}
    (hraw : v.text? (k.letter id) = some raw) (ht : Task.ofLetter raw = some t) : Fits id t := by
  obtain ⟨o, ho⟩ := h.stands id
  obtain ⟨t₀, rfl, rfl⟩ := Option.map_eq_some_iff.1 (ho.letter.symm.trans hraw)
  obtain ⟨hid, hwords⟩ := ho.fits t₀ rfl
  rw [Task.ofLetter_letter_eq hwords] at ht
  obtain ⟨ms, -, rfl⟩ := Option.map_eq_some_iff.1 ht
  exact ⟨hid, hwords⟩

theorem swap (h : Kept k v) (now : Int) {c : Client} {sw : Swap} {t : Task}
    (hread : Task.ofLetter sw.raw = some t)
    (fits : Fits id t → ∀ u, task? sw.decision = some u → Fits id u)
    (hraw : v.get? now (c.keys.letter id) = some sw.raw) :
    Kept k (v.runScript now sw.decision.script (c.keys.letter id) (c.keys.mark id) sw.raw
      sw.decision.letter sw.decision.mark).2 := by
  obtain ⟨raw, d⟩ := sw
  by_cases hk : c.keys = k
  · subst hk
    have hfit : Fits id t := by
      rw [Server.get?_of_lasting (h.lasting id).1] at hraw
      exact h.fits_of_read hraw hread
    cases d with
    | replace u =>
      have ht : Touches c.keys id (some u.letter) (mark? u) none v (v.runScript now .replace
          (c.keys.letter id) (c.keys.mark id) raw u.letter (markText u)).2 := by
        rw [← Mirror.InStep.isEmpty_markText u]
        exact Mirror.touches_replace h.calm hraw
      exact h.own (o := some u) ht (by simp) (fits hfit)
    | remove =>
      exact h.own (o := none) (Mirror.touches_remove h.calm hraw) (by simp) (by simp)
  · cases d with
    | replace u => exact h.other hk (Mirror.touches_replace h.calm hraw) (by simp)
    | remove => exact h.other hk (Mirror.touches_remove h.calm hraw) (by simp)

theorem insert (h : Kept k v) (now : Int) {f : Mirror} {task : Task} (hopen : task.isOpen = true)
    (hwords : task.transport < UInt64.size)
    (hp : ∀ key, pointerKey? f.client f.binding task = some key → k.Foreign key) :
    Kept k (Server.writeAll now v (f.client.insertWrites f.binding task)).2 := by
  have ht := Mirror.touches_insert h.calm now f.client f.binding task
  by_cases hk : f.client.keys = k
  · subst hk
    have hmark : some (markText task) = mark? task := by
      simp only [markText, mark?, hopen, if_true]
    rw [hmark] at ht
    refine h.own (o := some task) ht hp fun t he => ?_
    obtain rfl := Option.some.inj he
    exact ⟨rfl, hwords⟩
  · exact h.other hk ht hp

theorem delete (h : Kept k v) (now : Int) (g : Keys) (id : TaskId) :
    Kept k ((v.del now (g.letter id)).2.del now (g.mark id)).2 := by
  by_cases hk : g = k
  · subst hk
    exact h.own (o := none) (Mirror.touches_del h.calm now) (by simp) (by simp)
  · exact h.other hk (Mirror.touches_del h.calm now) (by simp)

/-- **One command of any call keeps it so.** -/
theorem answer (h : Kept k v) {q : Command} (ha : Asks j q) (hf : j.Fair)
    (hp : ∀ key, j.pointer? = some key → k.Foreign key) (now : Int) :
    Kept k (v.answer now q).2 := by
  cases ha with
  | look key =>
    rw [h.calm.answer_get]
    exact h
  | teach script =>
    rw [h.calm.answer_load]
    exact h.congr ⟨h.calm.failing, h.calm.beforeScript⟩ rfl
  | swap sw t hread fits =>
    by_cases hkn : sw.decision.script ∈ v.known
    · rw [show v.answer now (Update.command j.store.client j.request.id sw) = _ from
        h.calm.answer_run hkn]
      by_cases hraw : v.get? now (j.store.client.keys.letter j.request.id) = some sw.raw
      · exact h.swap now hread fits hraw
      · rw [Server.runScript_of_ne hraw]
        exact h
    · rw [show v.answer now (Update.command j.store.client j.request.id sw) = _ from
        h.calm.answer_run_of_unknown hkn]
      exact h
  | insert task hj =>
    obtain ⟨f, request⟩ := j
    subst hj
    rw [h.calm.answer_transaction]
    exact h.insert now hf.1 hf.2 hp
  | delete id =>
    rw [h.calm.answer_transaction]
    exact h.delete now j.store.keys id

end Kept

/-! ### Runs -/

/-- No pointer that a call of another scope may set is of concern to this one. -/
def Clear (k : Keys) (s : State) : Prop :=
  ∀ (n : Nat) (j : Job) (w : Work j.Result) (key : String), s.threads[n]? = some ⟨j, w⟩ →
    j.store.keys ≠ k → j.pointer? = some key → k.Foreign key

theorem Job.pointer?_eq {key : String} (h : j.pointer? = some key) :
    ∃ r, key = j.store.keys.pointer r := by
  unfold Job.pointer? at h
  split at h
  · unfold pointerKey? at h
    split at h
    · exact ⟨_, (Option.some.inj h).symm⟩
    · cases h
  · cases h

theorem Clear.foreign {k : Keys} (h : Clear k s) {n : Nat} {w : Work j.Result}
    (hn : s.threads[n]? = some ⟨j, w⟩) (key : String) (hkey : j.pointer? = some key) :
    k.Foreign key := by
  by_cases hk : j.store.keys = k
  · obtain ⟨r, rfl⟩ := Job.pointer?_eq hkey
    rw [hk]
    exact Keys.foreign_pointer k r
  · exact h n j w key hn hk hkey

/-- To a scope without a colon no pointers are of concern. -/
theorem clear_of_colon {k : Keys} (h : ':' ∉ k.scope.toList) (s : State) : Clear k s := by
  intro n j w key _ _ hkey
  obtain ⟨r, rfl⟩ := Job.pointer?_eq hkey
  exact Keys.foreign_pointer_of_colon h j.store.keys r

/-- **Whatever the stores of a server do**, each scope that no pointer is of concern to has its
letters and marks and nothing else. -/
theorem kept_of_run {k : Keys} (hc : x₀.server.Calm) (he : x₀.server.entries = [])
    (hr : Run rules { shared := x₀ } s) (hclear : Clear k s) : Kept k s.shared.server := by
  induction hr with
  | refl => exact .of_nil hc he
  | @snoc t u hr step ih =>
    have hbefore : Clear k t := fun n j w key hn hk hkey => by
      obtain ⟨w', hn'⟩ := step.job_stays hn
      exact hclear n j w' key hn' hk hkey
    have h := ih hbefore
    cases step with
    | move hx =>
      obtain ⟨now, rfl⟩ := hx
      exact h
    | start hx =>
      obtain ⟨-, rfl⟩ := hx
      exact h
    | answer asks hx =>
      obtain ⟨rfl, rfl⟩ := hx
      exact h.answer (asks_of_run hr asks) (fair_of_run hr asks) (hbefore.foreign asks) _

end MailQueue.Scopes

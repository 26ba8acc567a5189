import MailQueue.Proofs.Scopes.Basic

/-!
# Pointers to tasks that may be joined

The clients of one scope, each for a queue of its own, side by side on one server. An insertion
leaves a pointer under the grouping key of its recipient. Nobody writes the pointer again when the
task behind it is claimed, put back, cancelled or removed, and it may be gone at any time.

* `Pointers.Job` is a call of a client that writes or looks for a task to join, and
  `Pointers.rules` are the rules by which calls start and commands are answered;
* `Held` says what stands on the server: under the letter of a task that task, and under a pointer
  a task that was inserted for the same group;
* `Held.answer`: one command of any call keeps it so, and `held_of_run`: so does a run.
-/

namespace MailQueue.Pointers

open Interleaving KeyValue KeyValue.Client
open Mirror (Rewrites Touches task? pointerKey?)
open Scopes (Fits)

/-! ### Calls -/

/-- What a client is asked for. -/
inductive Request where
  | write (r : Mirror.Job)
  /-- The open task for a recipient, to be sent by then. -/
  | find (recipient : Recipient) (before : Instant)

namespace Request

def call : Request → Store.Call
  | write r => r.call
  | find recipient before => .find recipient before

/-- The identifier that the call brings up, with the recipient of its task. -/
def issues : Request → List (TaskId × Recipient)
  | write (.insert task) => [(task.id, task.recipient)]
  | _ => []

/-- An inserted task is open, and a transport is a word of 64 bits. -/
def Fair : Request → Prop
  | write (.insert task) => task.isOpen = true ∧ task.transport < UInt64.size
  | write (.mutate _ patch) => ∀ n, patch.transport = some n → n < UInt64.size
  | _ => True

/-- All mails that the call hands over are such. -/
def Hands (P : Mail → Prop) : Request → Prop
  | write (.insert task) => ∀ m ∈ task.fragments, P m
  | write (.mutate _ patch) => ∀ ms, patch.fragments = some ms → ∀ m ∈ ms, P m
  | _ => True

end Request

/-- A call of a client, with the queue that uses it. -/
structure Job where
  binding : Binding
  request : Request

namespace Job

@[reducible] def Result (j : Job) : Type := j.request.call.Answer

def client (k : Keys) (j : Job) : Client := ⟨k, some j.binding⟩

end Job

structure Shared where
  server : Server
  /-- The time of the server, in milliseconds. -/
  now : Int
  /-- The identifiers that tasks were inserted under, or are going to be, with their recipients. -/
  issued : List (TaskId × Recipient)

def Shared.get? (x : Shared) (key : String) : Option String := x.server.get? x.now key

abbrev State := Interleaving.State Command Command.Answer Job Job.Result Shared

abbrev Entry := Interleaving.Entry Command Command.Answer Job Shared

/-- The rules for calls: a call starts at any time, an insertion under an identifier that is new.
The time of the server changes, and a pointer is gone, at any time. -/
def rules (k : Keys) : Rules Command Command.Answer Job Job.Result Shared where
  work j := (j.client k).answer j.request.call
  starts s j x := j.request.Fair ∧
    (∀ e ∈ j.request.issues, e.1 ∉ s.shared.issued.map Prod.fst) ∧
    x = { s.shared with issued := j.request.issues ++ s.shared.issued }
  answers _ q x a y := a = (x.server.answer x.now q).1 ∧
    y = { x with server := (x.server.answer x.now q).2 }
  moves x y := (∃ now, y = { x with now := now }) ∨
    ∃ r, y = { x with server := (x.server.del x.now (k.pointer r)).2 }

variable {k : Keys} {P : Mail → Prop} {v w : Server} {issued : List (TaskId × Recipient)}
  {id : TaskId}

/-! ### What stands on the server -/

/-- A task that may stand under the letter of this identifier. -/
structure Fitting (P : Mail → Prop) (issued : List (TaskId × Recipient)) (id : TaskId) (t : Task) :
    Prop where
  fits : Fits id t
  issued : (id, t.recipient) ∈ issued
  mails : ∀ m ∈ t.fragments, P m

/-- A pointer leads to a task that was inserted for the group. -/
def Leads (k : Keys) (issued : List (TaskId × Recipient)) (e : String × Cell) : Prop :=
  ∀ r, e.1 = k.pointer r → ∃ id r', e.2.value = id.text ∧ (id, r') ∈ issued ∧
    r'.groupingKey = r.groupingKey

/-- What stands on the server for the scope, with mails of this kind only. -/
structure Held (k : Keys) (P : Mail → Prop) (v : Server) (issued : List (TaskId × Recipient)) :
    Prop where
  calm : v.Calm
  lasting : ∀ id, v.Lasting (k.letter id) ∧ v.Lasting (k.mark id)
  letters : ∀ id raw, v.text? (k.letter id) = some raw → ∃ t, raw = t.letter ∧ Fitting P issued id t
  pointers : ∀ e ∈ v.entries, Leads k issued e
  unique : ∀ id r r', (id, r) ∈ issued → (id, r') ∈ issued → r = r'

/-- No key of the scope is in use. -/
def Vacant (k : Keys) (v : Server) : Prop :=
  ∀ e ∈ v.entries, (∀ id, e.1 ≠ k.letter id ∧ e.1 ≠ k.mark id) ∧ ∀ r, e.1 ≠ k.pointer r

/-- Reading a mail back keeps it of the kind. -/
def Reread (P : Mail → Prop) : Prop := ∀ m m', P m → m.reread? = some m' → P m'

theorem Reread.mapM (hP : Reread P) {ms ms' : List Mail} (h : ms.mapM Mail.reread? = some ms')
    (hms : ∀ m ∈ ms, P m) : ∀ m ∈ ms', P m := by
  induction ms generalizing ms' with
  | nil =>
    obtain rfl : [] = ms' := Option.some.inj h
    exact fun m hm => absurd hm List.not_mem_nil
  | cons m ms ih =>
    rw [List.mapM_cons] at h
    obtain ⟨m', hm', h⟩ := Option.bind_eq_some_iff.1 h
    obtain ⟨rest, hrest, h⟩ := Option.bind_eq_some_iff.1 h
    obtain rfl : m' :: rest = ms' := Option.some.inj h
    exact List.forall_mem_cons.2 ⟨hP m m' (hms m List.mem_cons_self) hm',
      ih hrest fun n hn => hms n (List.mem_cons_of_mem _ hn)⟩

namespace Fitting

variable {t u : Task}

theorem read (hP : Reread P) (h : Fitting P issued id t) (hu : Task.ofLetter t.letter = some u) :
    Fitting P issued id u := by
  rw [Task.ofLetter_letter_eq h.fits.2] at hu
  obtain ⟨ms, hms, rfl⟩ := Option.map_eq_some_iff.1 hu
  exact ⟨h.fits, h.issued, hP.mapM hms h.mails⟩

/-- What is decided on a task may stand there in its place, as no decision changes a recipient. -/
theorem decided {r : Mirror.Job} {b : Binding} {decide : Task → Option Decision} {d : Decision}
    (hj : Mirror.Deciding b r decide) (hfair : (Request.write r).Fair)
    (hhands : (Request.write r).Hands P) (h : Fitting P issued id t) (hd : decide t = some d)
    (hu : task? d = some u) : Fitting P issued id u := by
  cases hj with
  | mutate _ p =>
    have hfits := Scopes.fits_of_patchDecision hfair hd h.fits hu
    obtain ⟨v, ha, rfl⟩ := Option.map_eq_some_iff.1 hd
    obtain rfl := Option.some.inj hu
    unfold Patch.applied? at ha
    split at ha
    · obtain rfl := Option.some.inj ha
      refine ⟨hfits, h.issued, fun m hm => ?_⟩
      rcases hms : p.fragments with _ | ms
      · exact h.mails m (by simpa [Patch.apply, hms] using hm)
      · exact hhands ms hms m (by simpa [Patch.apply, hms] using hm)
    · cases ha
  | cancel _ =>
    have hfits := Scopes.fits_of_cancelDecision hd h.fits hu
    unfold cancelDecision at hd
    split at hd
    · cases hd
    · split at hd <;> obtain rfl := Option.some.inj hd
      · obtain rfl := Option.some.inj hu
        exact ⟨hfits, h.issued, h.mails⟩
      · cases hu

end Fitting

theorem mem_insertWrites {now : Int} {c : Client} {b : Binding} {task : Task} {e : String × Cell}
    (h : e ∈ (Server.writeAll now v (c.insertWrites b task)).2.entries) :
    e.1 = c.keys.letter task.id ∨ e.1 = c.keys.mark task.id ∨
      (e.1 = c.keys.pointer task.recipient ∧ e.2.value = task.id.text) ∨ e ∈ v.entries := by
  have hset : ∀ {e : String × Cell}, e ∈ ((v.set now (c.keys.letter task.id) task.letter none).set
      now (c.keys.mark task.id) (markText task) none).entries →
      e.1 = c.keys.letter task.id ∨ e.1 = c.keys.mark task.id ∨ e ∈ v.entries := fun he =>
    (Server.mem_set he).elim (fun he => .inr (.inl he)) fun he => (Server.mem_set he).imp_right .inr
  unfold insertWrites at h
  cases hb : b.concatEnabled <;> rw [hb] at h
  · exact (hset h).imp_right fun h => h.imp_right .inr
  · have h : e ∈ (Server.write now _ (.set (c.keys.pointer task.recipient) task.id.text
      (some (pointerExpiry task)))).2.entries := h
    simp only [Server.write] at h
    split at h
    · exact (hset h).imp_right fun h => h.imp_right .inr
    · rcases Entries.mem_put (Server.mem_live h) with rfl | h
      · exact .inr (.inr (.inl ⟨rfl, rfl⟩))
      · exact (hset (Server.mem_live h)).imp_right fun h => h.imp_right .inr

namespace Held

theorem of_vacant (hc : v.Calm) (hv : Vacant k v) : Held k P v [] where
  calm := hc
  lasting id := ⟨fun e he hk => absurd hk ((hv e he).1 id).1,
    fun e he hk => absurd hk ((hv e he).1 id).2⟩
  letters id raw h := by
    obtain ⟨cell, hcell, -⟩ := Option.map_eq_some_iff.1 h
    exact absurd rfl ((hv _ (Entries.mem_of_get? hcell)).1 id).1
  pointers e he r hr := absurd hr ((hv e he).2 r)
  unique := by simp

variable (h : Held k P v issued)

include h

theorem congr (hc : w.Calm) (he : w.entries = v.entries) : Held k P w issued where
  calm := hc
  lasting id := by
    simp only [Server.Lasting, he]
    exact h.lasting id
  letters id raw hraw := h.letters id raw (by rw [Server.text?, ← he]; exact hraw)
  pointers e hmem := h.pointers e (he ▸ hmem)
  unique := h.unique

theorem issue {news : List (TaskId × Recipient)} (hnew : ∀ e ∈ news, e.1 ∉ issued.map Prod.fst)
    (hone : ∀ id r r', (id, r) ∈ news → (id, r') ∈ news → r = r') :
    Held k P v (news ++ issued) where
  calm := h.calm
  lasting := h.lasting
  letters id raw hraw :=
    have ⟨t, ht, hfit⟩ := h.letters id raw hraw
    ⟨t, ht, hfit.fits, List.mem_append_right _ hfit.issued, hfit.mails⟩
  pointers e he r hr :=
    have ⟨id, r', hv, hmem, hg⟩ := h.pointers e he r hr
    ⟨id, r', hv, List.mem_append_right _ hmem, hg⟩
  unique id r r' hr hr' := by
    have hnot : ∀ {a b}, (id, a) ∈ news → (id, b) ∉ issued := fun ha hb =>
      hnew _ ha (List.mem_map.2 ⟨_, hb, rfl⟩)
    rcases List.mem_append.1 hr with hr | hr <;> rcases List.mem_append.1 hr' with hr' | hr'
    · exact hone id r r' hr hr'
    · exact absurd hr' (hnot hr)
    · exact absurd hr (hnot hr')
    · exact h.unique id r r' hr hr'

theorem dropped (now : Int) (r : Recipient) : Held k P (v.del now (k.pointer r)).2 issued where
  calm := h.calm.del now _
  lasting id := ⟨(h.lasting id).1.del now _, (h.lasting id).2.del now _⟩
  letters id raw hraw := by
    have htext := Server.text?_del (h.lasting id).1 now (k.pointer r)
    rw [if_neg (Keys.pointer_ne_letter r id)] at htext
    exact h.letters id raw (htext ▸ hraw)
  pointers e he := h.pointers e (Server.mem_del he)
  unique := h.unique

/-- A letter is replaced or removed, and its mark with it. -/
theorem rewritten {o : Option Task} {mark : Option String}
    (hw : Rewrites k id (o.map Task.letter) mark v w) (ho : ∀ t, o = some t → Fitting P issued id t)
    (hp : ∀ e ∈ w.entries, Leads k issued e) : Held k P w issued where
  calm := hw.calm
  lasting := hw.lasting
  letters id' raw hraw := by
    rw [hw.letters] at hraw
    split at hraw
    · next hid =>
      obtain ⟨t, ht, rfl⟩ := Option.map_eq_some_iff.1 hraw
      exact ⟨t, rfl, hid ▸ ho t ht⟩
    · exact h.letters id' raw hraw
  pointers := hp
  unique := h.unique

/-- A write that sets no pointer leaves the others to lead where they led. -/
theorem leads_of_touches {letter mark : Option String} (hw : Touches k id letter mark none v w) :
    ∀ e ∈ w.entries, Leads k issued e := by
  intro e he r hr
  rcases hw.entries e he with hm | hl | hn | hold
  · exact absurd (hr.symm.trans hm) (Keys.pointer_ne_mark r id)
  · exact absurd (hr.symm.trans hl) (Keys.pointer_ne_letter r id)
  · cases hn
  · exact h.pointers e hold r hr

/-- The script for a decision, while the letter is what was read. -/
theorem swap {now : Int} {sw : Swap} (hraw : v.get? now (k.letter id) = some sw.raw)
    (hfit : ∀ u, task? sw.decision = some u → Fitting P issued id u) :
    Held k P (v.runScript now sw.decision.script (k.letter id) (k.mark id) sw.raw
      sw.decision.letter sw.decision.mark).2 issued := by
  obtain ⟨raw, d⟩ := sw
  cases d with
  | replace u =>
    exact h.rewritten (o := some u) (Mirror.rewrites_replace h.calm h.lasting hraw) hfit
      (h.leads_of_touches (Mirror.touches_replace h.calm hraw))
  | remove =>
    exact h.rewritten (o := none) (Mirror.rewrites_remove h.calm h.lasting hraw) hfit
      (h.leads_of_touches (Mirror.touches_remove h.calm hraw))

/-- The transaction of an insertion. -/
theorem insert (now : Int) {c : Client} (hk : c.keys = k) (b : Binding) {task : Task}
    (hfit : Fitting P issued task.id task) :
    Held k P (Server.writeAll now v (c.insertWrites b task)).2 issued := by
  subst hk
  refine h.rewritten (o := some task) (Mirror.rewrites_insert h.calm h.lasting rfl now b task)
    (fun t ht => Option.some.inj ht ▸ hfit) fun e he r hr => ?_
  rcases mem_insertWrites he with hl | hm | ⟨hp, hv⟩ | hold
  · exact absurd (hr.symm.trans hl) (Keys.pointer_ne_letter r task.id)
  · exact absurd (hr.symm.trans hm) (Keys.pointer_ne_mark r task.id)
  · exact ⟨task.id, task.recipient, hv, hfit.issued,
      Keys.pointer_eq_pointer_iff.1 (hp.symm.trans hr)⟩
  · exact h.pointers e hold r hr

/-- **One command of a call that writes keeps it so.** -/
theorem answer (hP : Reread P) (now : Int) {b : Binding} {r : Mirror.Job} {q : Command}
    (ha : Mirror.Asks ⟨k, b⟩ r q) (hfair : (Request.write r).Fair)
    (hhands : (Request.write r).Hands P) (hissued : ∀ e ∈ (Request.write r).issues, e ∈ issued) :
    Held k P (v.answer now q).2 issued := by
  cases ha with
  | look key =>
    rw [h.calm.answer_get]
    exact h
  | teach script =>
    rw [h.calm.answer_load]
    exact h.congr ⟨h.calm.failing, h.calm.beforeScript⟩ rfl
  | swap sw t decide hj ht hd =>
    by_cases hkn : sw.decision.script ∈ v.known
    · rw [show v.answer now (Update.command (Mirror.client ⟨k, b⟩) r.id sw) = _ from
        h.calm.answer_run hkn]
      by_cases hraw : v.get? now (k.letter r.id) = some sw.raw
      · -- the letter is what was decided on, and that was a task of this identifier
        obtain ⟨t₀, hletter, hfit⟩ := h.letters r.id sw.raw
          ((Server.get?_of_lasting (h.lasting r.id).1 now).symm.trans hraw)
        exact h.swap hraw fun u hu => (hfit.read hP (hletter ▸ ht)).decided hj hfair hhands hd hu
      · have hraw : v.get? now ((Mirror.client ⟨k, b⟩).keys.letter r.id) ≠ some sw.raw := hraw
        rw [Server.runScript_of_ne hraw]
        exact h
    · rw [show v.answer now (Update.command (Mirror.client ⟨k, b⟩) r.id sw) = _ from
        h.calm.answer_run_of_unknown hkn]
      exact h
  | insert task hj =>
    subst hj
    rw [h.calm.answer_transaction]
    exact h.insert now rfl b ⟨⟨rfl, hfair.2⟩, hissued _ List.mem_cons_self, hhands⟩
  | delete id hj =>
    rw [h.calm.answer_transaction]
    exact h.rewritten (o := none) (Mirror.rewrites_del h.calm h.lasting now) (by simp)
      (h.leads_of_touches (Mirror.touches_del h.calm now))

end Held

/-! ### Calls in a run -/

variable {x₀ : Shared} {s t : State} {j : Job}

theorem issued_subset_of_step (h : Step (rules k) s t) : s.shared.issued ⊆ t.shared.issued := by
  cases h with
  | move hx =>
    rcases hx with ⟨now, rfl⟩ | ⟨r, rfl⟩ <;> exact List.Subset.refl _
  | start hx =>
    obtain ⟨-, -, rfl⟩ := hx
    exact List.subset_append_right _ _
  | answer asks hx =>
    obtain ⟨-, rfl⟩ := hx
    exact List.Subset.refl _

theorem issued_subset (h : Run (rules k) s t) : s.shared.issued ⊆ t.shared.issued := by
  induction h with
  | refl => exact List.Subset.refl _
  | snoc _ step ih => exact List.Subset.trans ih (issued_subset_of_step step)

theorem started_of_run (hr : Run (rules k) { shared := x₀ } s) {n : Nat} {w : Work j.Result}
    (hn : s.threads[n]? = some ⟨j, w⟩) :
    j.request.Fair ∧ j.request.issues ⊆ s.shared.issued := by
  induction hr generalizing n w with
  | refl => simp at hn
  | @snoc t u hr step ih =>
    have hkeep : ∀ (n : Nat) (w : Work j.Result), t.threads[n]? = some ⟨j, w⟩ →
        j.request.Fair ∧ j.request.issues ⊆ u.shared.issued := fun n w hn =>
      (ih hn).imp_right fun hsub => List.Subset.trans hsub (issued_subset_of_step step)
    cases step with
    | move => exact hkeep _ _ hn
    | start hx =>
      rcases getElem?_started hn with ⟨-, hn⟩ | ⟨-, hth⟩
      · exact hkeep _ _ hn
      · obtain ⟨rfl, -⟩ := Thread.mk.inj hth
        obtain ⟨hfair, -, rfl⟩ := hx
        exact ⟨hfair, List.subset_append_left _ _⟩
    | answer asks =>
      obtain ⟨w', hn⟩ := job_of_answered asks hn
      exact hkeep _ _ hn

theorem Request.unique_issues (r : Request) (id : TaskId) (a b : Recipient)
    (ha : (id, a) ∈ r.issues) (hb : (id, b) ∈ r.issues) : a = b := by
  unfold issues at ha hb
  split at ha
  · exact congrArg Prod.snd ((List.mem_singleton.1 ha).trans (List.mem_singleton.1 hb).symm)
  · cases ha

/-! ### Looks for a task to join -/

/-- What the letter behind a pointer comes to. -/
def joined (before : Instant) : Option (Option String) → Except StoreError (Option Task)
  | none => .error serverError
  | some none => .ok none
  | some (some raw) =>
    match Task.ofLetter raw with
    | none => .error .unreadable
    | some t => .ok (if t.isOpen = true ∧ t.sendAt ≤ before then some t else none)

def followed (c : Client) (before : Instant) :
    Option (Option String) → Work (Except StoreError (Option Task))
  | none => .done (.error serverError)
  | some pointer =>
    match pointer.bind TaskId.parse? with
    | none => .done (.ok none)
    | some id => .ask (.get (c.keys.letter id)) fun a => .done (joined before a)

theorem find_eq (c : Client) (r : Recipient) (before : Instant) :
    c.find r before = .ask (.get (c.keys.pointer r)) (followed c before) := by
  refine congrArg (Program.ask _) (funext fun a => ?_)
  rcases a with _ | pointer
  · rfl
  · simp only [followed, Bind.bind, Program.done_bind]
    rcases pointer.bind TaskId.parse? with _ | id
    · rfl
    · refine congrArg (Program.ask _) (funext fun a => ?_)
      rcases a with _ | _ | raw
      · rfl
      · rfl
      · simp only [joined, Pure.pure, Program.bind]
        rcases Task.ofLetter raw with _ | t
        · rfl
        · simp [Option.filter]

theorem only_find (c : Client) (r : Recipient) (before : Instant) :
    (c.find r before).Only fun q => ∃ key, q = .get key := by
  rw [find_eq]
  refine ⟨⟨_, rfl⟩, fun a => ?_⟩
  rcases a with _ | pointer
  · trivial
  · rw [followed]
    split
    · trivial
    · exact ⟨⟨_, rfl⟩, fun _ => trivial⟩

/-! ### Runs -/

/-- All calls hand over such mails only. -/
def Hands (P : Mail → Prop) (s : State) : Prop :=
  ∀ (n : Nat) (j : Job) (w : Work j.Result), s.threads[n]? = some ⟨j, w⟩ → j.request.Hands P

theorem Hands.of_step (h : Hands P t) (step : Step (rules k) s t) : Hands P s := by
  intro n j w hn
  obtain ⟨w', hn'⟩ := step.job_stays hn
  exact h n j w' hn'

theorem Hands.of_run (h : Hands P t) (hr : Run (rules k) s t) : Hands P s := by
  intro n j w hn
  obtain ⟨w', hn'⟩ := hr.job_stays hn
  exact h n j w' hn'

/-- **Whatever the clients do**, what stands on the server stands there so. -/
theorem held_of_run (hP : Reread P) (hr : Run (rules k) { shared := x₀ } s)
    (h₀ : Held k P x₀.server x₀.issued) (hh : Hands P s) :
    Held k P s.shared.server s.shared.issued := by
  induction hr with
  | refl => exact h₀
  | @snoc t u hr step ih =>
    have hbefore := hh.of_step step
    have h := ih hbefore
    cases step with
    | move hx =>
      rcases hx with ⟨now, rfl⟩ | ⟨r, rfl⟩
      · exact h
      · exact h.dropped t.shared.now r
    | @start j x hx =>
      obtain ⟨-, hnew, rfl⟩ := hx
      exact h.issue hnew j.request.unique_issues
    | @answer n j q next a x asks hx =>
      obtain ⟨-, rfl⟩ := hx
      obtain ⟨hfair, hissued⟩ := started_of_run hr asks
      have hhands := hbefore n j _ asks
      have hpath := hr.path asks
      obtain ⟨b, request⟩ := j
      cases request with
      | write r => exact h.answer hP _ (b := b) (Mirror.asks_of_path hpath) hfair hhands hissued
      | find r before =>
        obtain ⟨key, rfl⟩ := (((only_find ⟨k, some b⟩ r before).of_path hpath).1).1
        show Held k P (t.shared.server.answer t.shared.now _).2 t.shared.issued
        rw [h.calm.answer_get]
        exact h

end MailQueue.Pointers

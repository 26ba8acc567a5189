import MailQueue.Proofs.Memory
import MailQueue.Proofs.Mirror.Update

/-!
# Server and memory in step

What one write does to both sides.

* `Touches` says which keys a write replaces, for the scripts and transactions of a store:
  `touches_replace`, `touches_remove`, `touches_del` and `touches_insert`;
* `Rewrites` says so for the letters and marks of the scope, with `Touches.rewrites`;
* `InStep.rewritten`: when memory changes in the same way, the two stay in step;
* `InStep.inserted`, `InStep.decided` and `InStep.deleted` are the writes of the calls.
-/

namespace MailQueue.Mirror

open KeyValue KeyValue.Client

/-! ### What a write replaces -/

/-- What stands under the letter and the mark of one task is replaced, or removed. No other key is
written, but for that of a pointer. -/
structure Touches (k : Keys) (id : TaskId) (letter mark pointer : Option String) (v w : Server) :
    Prop where
  calm : w.Calm
  texts : ∀ key, v.Lasting key → pointer ≠ some key → w.Lasting key ∧ w.text? key =
    if k.mark id = key then mark else if k.letter id = key then letter else v.text? key
  entries : ∀ e ∈ w.entries,
    e.1 = k.mark id ∨ e.1 = k.letter id ∨ pointer = some e.1 ∨ e ∈ v.entries

/-- The letter and the mark of one task are replaced, or removed, and those of others are not. -/
structure Rewrites (k : Keys) (id : TaskId) (letter mark : Option String) (v w : Server) :
    Prop where
  calm : w.Calm
  lasting : ∀ id', w.Lasting (k.letter id') ∧ w.Lasting (k.mark id')
  letters : ∀ id', w.text? (k.letter id') = if id = id' then letter else v.text? (k.letter id')
  marks : ∀ id', w.text? (k.mark id') = if id = id' then mark else v.text? (k.mark id')

section Touches

variable {k : Keys} {id : TaskId} {v w : Server} (hc : v.Calm)

include hc

theorem touches_set (now : Int) (letter mark : String) :
    Touches k id (some letter) (some mark) none v
      ((v.set now (k.letter id) letter none).set now (k.mark id) mark none) where
  calm := (hc.set now _ _ _).set now _ _ _
  texts key hkey _ := by
    have hset : (v.set now (k.letter id) letter none).Lasting key := hkey.set (fun _ => rfl) now _
    exact ⟨hset.set (fun _ => rfl) now _,
      by rw [Server.text?_set hset fun _ => rfl, Server.text?_set hkey fun _ => rfl]⟩
  entries e he := by
    rcases Server.mem_set he with he | he
    · exact .inl he
    · exact .inr ((Server.mem_set he).imp_right .inr)

theorem touches_set_del (now : Int) (letter : String) :
    Touches k id (some letter) none none v
      ((v.set now (k.letter id) letter none).del now (k.mark id)).2 where
  calm := (hc.set now _ _ _).del now _
  texts key hkey _ := by
    have hset : (v.set now (k.letter id) letter none).Lasting key := hkey.set (fun _ => rfl) now _
    exact ⟨hset.del now _, by rw [Server.text?_del hset, Server.text?_set hkey fun _ => rfl]⟩
  entries e he := .inr ((Server.mem_set (Server.mem_del he)).imp_right .inr)

theorem touches_replace {now : Int} {raw letter mark : String}
    (h : v.get? now (k.letter id) = some raw) :
    Touches k id (some letter) (if mark.isEmpty then none else some mark) none v
      (v.runScript now .replace (k.letter id) (k.mark id) raw letter mark).2 := by
  rw [Server.runScript_replace h]
  cases hm : mark.isEmpty with
  | false => exact touches_set hc now letter mark
  | true => exact touches_set_del hc now letter

theorem touches_del (now : Int) :
    Touches k id none none none v ((v.del now (k.letter id)).2.del now (k.mark id)).2 where
  calm := (hc.del now _).del now _
  texts key hkey _ := by
    have hdel : (v.del now (k.letter id)).2.Lasting key := hkey.del now _
    exact ⟨hdel.del now _, by rw [Server.text?_del hdel, Server.text?_del hkey]⟩
  entries e he := .inr (.inr (.inr (Server.mem_del (Server.mem_del he))))

theorem touches_remove {now : Int} {raw letter mark : String}
    (h : v.get? now (k.letter id) = some raw) :
    Touches k id none none none v
      (v.runScript now .remove (k.letter id) (k.mark id) raw letter mark).2 := by
  rw [Server.runScript_remove h]
  exact touches_del hc now

/-- The key of the pointer that an insertion sets, if any. -/
def pointerKey? (c : Client) (b : Binding) (task : Task) : Option String :=
  if b.concatEnabled then some (c.keys.pointer task.recipient) else none

theorem touches_insert (now : Int) (c : Client) (b : Binding) (task : Task) :
    Touches c.keys task.id (some task.letter) (some (markText task)) (pointerKey? c b task) v
      (Server.writeAll now v (c.insertWrites b task)).2 := by
  have hset : Touches c.keys task.id (some task.letter) (some (markText task)) none v _ :=
    touches_set hc now task.letter (markText task)
  simp only [insertWrites, pointerKey?]
  cases b.concatEnabled with
  | false => exact hset
  | true =>
    refine ⟨hc.writeAll now _, fun key hkey hpointer => ?_, fun e he => ?_⟩
    · obtain ⟨hmark, htext⟩ := hset.texts key hkey nofun
      obtain ⟨htext', hlast⟩ := Server.write_expiring hmark (fun he => hpointer (congrArg some he))
        now (pointerExpiry task) task.id.text
      exact ⟨hlast, htext'.trans htext⟩
    · have he : e ∈ (Server.write now ((v.set now (c.keys.letter task.id) task.letter none).set now
          (c.keys.mark task.id) (markText task) none) (.set (c.keys.pointer task.recipient)
          task.id.text (some (pointerExpiry task)))).2.entries := he
      rcases Server.mem_write_set he with he | he
      · exact .inr (.inr (.inl (congrArg some he.symm)))
      · exact (hset.entries e he).imp_right fun h => h.imp_right fun h =>
          h.imp_left fun h => nomatch h

end Touches

section Rewrites

variable {k : Keys} {id : TaskId} {v w : Server}

/-- A pointer is neither a letter nor a mark. -/
theorem Touches.rewrites {letter mark pointer : Option String}
    (h : Touches k id letter mark pointer v w)
    (hl : ∀ id', v.Lasting (k.letter id') ∧ v.Lasting (k.mark id'))
    (hp : ∀ key, pointer = some key → ∃ r, k.pointer r = key) :
    Rewrites k id letter mark v w := by
  have hletters : ∀ id', pointer ≠ some (k.letter id') := fun id' he =>
    have ⟨r, hr⟩ := hp _ he
    Keys.pointer_ne_letter r id' hr
  have hmarks : ∀ id', pointer ≠ some (k.mark id') := fun id' he =>
    have ⟨r, hr⟩ := hp _ he
    Keys.pointer_ne_mark r id' hr
  refine ⟨h.calm, fun id' => ⟨(h.texts _ (hl id').1 (hletters id')).1,
    (h.texts _ (hl id').2 (hmarks id')).1⟩, fun id' => ?_, fun id' => ?_⟩
  · have hne : k.mark id ≠ k.letter id' := fun he => Keys.letter_ne_mark id' id he.symm
    rw [(h.texts _ (hl id').1 (hletters id')).2, if_neg hne]
    by_cases hid : id = id'
    · rw [if_pos (congrArg k.letter hid), if_pos hid]
    · rw [if_neg fun he => hid (Keys.letter_injective he), if_neg hid]
  · rw [(h.texts _ (hl id').2 (hmarks id')).2]
    by_cases hid : id = id'
    · rw [if_pos (congrArg k.mark hid), if_pos hid]
    · rw [if_neg fun he => hid (Keys.mark_injective he), if_neg hid,
        if_neg (Keys.letter_ne_mark id id')]

variable (hc : v.Calm) (hl : ∀ id', v.Lasting (k.letter id') ∧ v.Lasting (k.mark id'))

include hc hl

theorem rewrites_replace {now : Int} {raw letter mark : String}
    (h : v.get? now (k.letter id) = some raw) :
    Rewrites k id (some letter) (if mark.isEmpty then none else some mark) v
      (v.runScript now .replace (k.letter id) (k.mark id) raw letter mark).2 :=
  (touches_replace hc h).rewrites hl nofun

theorem rewrites_del (now : Int) :
    Rewrites k id none none v ((v.del now (k.letter id)).2.del now (k.mark id)).2 :=
  (touches_del hc now).rewrites hl nofun

theorem rewrites_remove {now : Int} {raw letter mark : String}
    (h : v.get? now (k.letter id) = some raw) :
    Rewrites k id none none v
      (v.runScript now .remove (k.letter id) (k.mark id) raw letter mark).2 :=
  (touches_remove hc h).rewrites hl nofun

theorem rewrites_insert {c : Client} (hk : c.keys = k) (now : Int) (b : Binding) (task : Task) :
    Rewrites k task.id (some task.letter) (some (markText task)) v
      (Server.writeAll now v (c.insertWrites b task)).2 := by
  subst hk
  refine (touches_insert hc now c b task).rewrites hl fun key hkey => ⟨task.recipient, ?_⟩
  unfold pointerKey? at hkey
  split at hkey
  · exact Option.some.inj hkey
  · cases hkey

end Rewrites

/-! ### What it comes to in memory -/

variable {f : Mirror} {x : Shared} {m m' : Memory}

namespace InStep

theorem get?_letter (h : f.InStep x m) (now : Int) (id : TaskId) :
    x.server.get? now (f.keys.letter id) = x.server.text? (f.keys.letter id) :=
  Server.get?_of_lasting (h.lasting id).1 now

theorem get?_mark (h : f.InStep x m) (now : Int) (id : TaskId) :
    x.server.get? now (f.keys.mark id) = x.server.text? (f.keys.mark id) :=
  Server.get?_of_lasting (h.lasting id).2 now

theorem congr (h : f.InStep x m) (hm : ∀ id, m'.get? id = m.get? id)
    (hb : m'.binding = m.binding) : f.InStep x m' where
  mirrors := ⟨fun id => by rw [hm]; exact h.mirrors.letters id,
    fun id => by rw [hm]; exact h.mirrors.marks id⟩
  calm := h.calm
  lasting := h.lasting
  binding := hb.trans h.binding
  plain id t ht := h.plain id t (hm id ▸ ht)
  issued id t ht := h.issued id t (hm id ▸ ht)

/-- The server may come to know scripts, its time may change, and identifiers may be handed out. -/
theorem elsewhere (h : f.InStep x m) {y : Shared} (hc : y.server.Calm)
    (he : y.server.entries = x.server.entries) (hi : x.issued ⊆ y.issued) : f.InStep y m where
  mirrors := by
    have hl : ∀ id, y.server.Lasting (f.keys.letter id) ∧ y.server.Lasting (f.keys.mark id) := by
      intro id
      simp only [Server.Lasting, he]
      exact h.lasting id
    have ht : ∀ key, y.server.text? key = x.server.text? key := by
      intro key
      rw [Server.text?, Server.text?, he]
    refine ⟨fun id => ?_, fun id => ?_⟩
    · rw [Server.get?_of_lasting (hl id).1, ht, ← h.get?_letter x.now]
      exact h.mirrors.letters id
    · rw [Server.get?_of_lasting (hl id).2, ht, ← h.get?_mark x.now]
      exact h.mirrors.marks id
  calm := hc
  lasting id := by
    simp only [Server.Lasting, he]
    exact h.lasting id
  binding := h.binding
  plain := h.plain
  issued id t ht := hi (h.issued id t ht)

/-- **A write keeps server and memory in step** when what it leaves of a task on the server is the
letter and the mark of what it leaves in memory. -/
theorem rewritten (h : f.InStep x m) {id : TaskId} {letter mark : Option String} {w : Server}
    (hw : Rewrites f.keys id letter mark x.server w) {o : Option Task}
    (hm : ∀ id', m'.get? id' = if id = id' then o else m.get? id')
    (hb : m'.binding = m.binding) (hletter : letter.map Task.ofLetter = o.map some)
    (hmark : mark = o.bind mark?) (hplain : ∀ t, o = some t → t.Plain ∧ t.Durable)
    (hissued : ∀ t, o = some t → id ∈ x.issued) : f.InStep { x with server := w } m' where
  mirrors := by
    refine ⟨fun id' => ?_, fun id' => ?_⟩
    · rw [Server.get?_of_lasting (hw.lasting id').1, hw.letters, hm]
      split
      · exact hletter
      · rw [← h.get?_letter x.now]
        exact h.mirrors.letters id'
    · rw [Server.get?_of_lasting (hw.lasting id').2, hw.marks, hm]
      split
      · exact hmark
      · rw [← h.get?_mark x.now]
        exact h.mirrors.marks id'
  calm := hw.calm
  lasting := hw.lasting
  binding := hb.trans h.binding
  plain id' t ht := by
    rw [hm] at ht
    split at ht
    · exact hplain t ht
    · exact h.plain id' t ht
  issued id' t ht := by
    rw [hm] at ht
    split at ht
    · next he => exact he ▸ hissued t ht
    · exact h.issued id' t ht

end InStep

/-! ### What a call does -/

/-- The task that a decision leaves, if any. -/
def task? : Decision → Option Task
  | .replace task => some task
  | .remove => none

/-- A call does in memory what its decision does: nothing without a task or when there is nothing
to decide, and otherwise it leaves what was decided. -/
structure Decides (b : Binding) (j : Job) (decide : Task → Option Decision) : Prop where
  gone : ∀ m : Memory, m.binding = some b → m.get? j.id = none →
    j.said (m.answer j.call).1 = .ok false
  left : ∀ (m : Memory) t, m.binding = some b → m.get? j.id = some t → decide t = none →
    j.said (m.answer j.call).1 = .ok false
  made : ∀ (m : Memory) t d, m.binding = some b → m.get? j.id = some t → decide t = some d →
    j.said (m.answer j.call).1 = .ok true ∧
      ∀ id, (m.answer j.call).2.get? id = if j.id = id then task? d else m.get? id
  plain : j.Plain → j.Durable → ∀ t d, t.Plain ∧ t.Durable → decide t = some d →
    ∀ u, task? d = some u → u.Plain ∧ u.Durable

variable {b : Binding}

theorem decides_mutate (id : TaskId) (p : Patch) :
    Decides b (.mutate id p) (patchDecision p) where
  gone m _ hm := by
    show Except.ok (m.mutate id p).1 = _
    simp only [Memory.mutate, show m.get? id = none from hm, Option.bind_none]
  left m t _ hm hd := by
    have ha : p.applied? t = none := by simpa [patchDecision] using hd
    show Except.ok (m.mutate id p).1 = _
    simp only [Memory.mutate, show m.get? id = some t from hm, Option.bind_some, ha]
  made m t d _ hm hd := by
    obtain ⟨u, ha, rfl⟩ := Option.map_eq_some_iff.1 hd
    have hm : m.get? id = some t := hm
    have hmut : m.mutate id p = (true, m.put u) := by
      simp only [Memory.mutate, hm, Option.bind_some, ha]
    have hu : u.id = id := by
      unfold Patch.applied? at ha
      split at ha
      · rw [← Option.some.inj ha]
        exact (p.apply_id t).trans (Memory.id_of_get? hm)
      · cases ha
    refine ⟨?_, fun id' => ?_⟩
    · show Except.ok (m.mutate id p).1 = _
      rw [hmut]
    · show (m.mutate id p).2.get? id' = _
      rw [hmut]
      exact Memory.get?_put_of_id hm hu id'
  plain hp hdur t d ht hd u hu := by
    obtain ⟨v, ha, rfl⟩ := Option.map_eq_some_iff.1 hd
    obtain rfl := Option.some.inj hu
    unfold Patch.applied? at ha
    split at ha
    · rw [← Option.some.inj ha]
      exact ⟨Patch.Plain.apply hp ht.1, Patch.Durable.apply hdur ht.2⟩
    · cases ha

theorem decides_cancel (id : TaskId) : Decides b (.cancel id) (cancelDecision b) where
  gone m hb hm := by
    have hm : m.get? id = none := hm
    show (m.answer (.cancel id)).1 = .ok false
    simp only [Memory.answer, Memory.whenBound, hb, Memory.cancel, hm]
  left m t hb hm hd := by
    have hm : m.get? id = some t := hm
    have ho : t.isOpen = false := by
      cases ho : t.isOpen with
      | false => rfl
      | true =>
        cases hk : b.keepHistory <;> simp [cancelDecision, ho, hk] at hd
    show (m.answer (.cancel id)).1 = .ok false
    simp only [Memory.answer, Memory.whenBound, hb, Memory.cancel, hm, ho]
    rfl
  made m t d hb hm hd := by
    have hm : m.get? id = some t := hm
    have ho : t.isOpen = true := by
      cases ho : t.isOpen with
      | true => rfl
      | false => simp [cancelDecision, ho] at hd
    show (m.answer (.cancel id)).1 = .ok true ∧ ∀ id', (m.answer (.cancel id)).2.get? id' = _
    simp only [Memory.answer, Memory.whenBound, hb, Memory.cancel, hm, ho, if_true, true_and]
    intro id'
    cases hk : b.keepHistory with
    | true =>
      have hd : d = .replace { t with cancelled := true } := by
        simpa [cancelDecision, ho, hk, eq_comm] using hd
      subst hd
      have hid : t.id = id := Memory.id_of_get? hm
      exact Memory.get?_put_of_id (u := { t with cancelled := true }) hm hid id'
    | false =>
      have hd : d = .remove := by simpa [cancelDecision, ho, hk, eq_comm] using hd
      subst hd
      exact Memory.get?_erase m id id'
  plain _ _ t d ht hd u hu := by
    have hu : u = { t with cancelled := true } := by
      cases ho : t.isOpen <;> cases hk : b.keepHistory <;> simp [cancelDecision, ho, hk] at hd
      · subst hd
        cases hu
      · subst hd
        exact (Option.some.inj hu).symm
    subst hu
    exact ⟨⟨ht.1.aligned, ht.1.transport, ht.1.fragments⟩, ht.2⟩

namespace InStep

theorem isEmpty_markText (t : Task) :
    (if (markText t).isEmpty then none else some (markText t)) = mark? t := by
  unfold markText mark?
  cases t.isOpen with
  | false => rfl
  | true =>
    have hne : (String.ofList (Number.intDigits t.sendAt.ms)).isEmpty = false := by
      rw [String.isEmpty_eq_false_iff]
      intro h
      have h := congrArg String.toList h
      rw [String.toList_ofList] at h
      rcases hms : t.sendAt.ms with n | n <;> rw [hms] at h
      · exact Number.natDigits_ne_nil n h
      · cases h
    simp only [if_true, hne, Bool.false_eq_true, if_false]

theorem rewrites_script (h : f.InStep x m) {id : TaskId} {raw : String} (d : Decision)
    (hraw : x.server.text? (f.keys.letter id) = some raw) :
    ∃ letter mark, Rewrites f.keys id letter mark x.server (x.server.runScript x.now d.script
      (f.keys.letter id) (f.keys.mark id) raw d.letter d.mark).2 := by
  have hget : x.server.get? x.now (f.keys.letter id) = some raw := by rw [h.get?_letter, hraw]
  cases d with
  | replace task => exact ⟨_, _, rewrites_replace h.calm h.lasting hget⟩
  | remove => exact ⟨_, _, rewrites_remove h.calm h.lasting hget⟩

/-- The script for a decision is run on the letter that the decision was made on. -/
theorem decided (h : f.InStep x m) {j : Job} {decide : Task → Option Decision}
    (hd : Decides f.binding j decide) (hp : j.Plain) (hdur : j.Durable) {raw : String} {t : Task}
    {d : Decision} (hraw : x.server.text? (f.keys.letter j.id) = some raw)
    (ht : Task.ofLetter raw = some t) (hdec : decide t = some d) :
    j.said (m.answer j.call).1 = .ok true ∧
      f.InStep { x with server := (x.server.runScript x.now d.script (f.keys.letter j.id)
        (f.keys.mark j.id) raw d.letter d.mark).2 } (m.answer j.call).2 := by
  have hm : m.get? j.id = some t := by
    have hl := h.mirrors.letters j.id
    rw [h.get?_letter, hraw, Option.map_some, ht] at hl
    rcases hg : m.get? j.id with _ | u <;> rw [hg] at hl
    · cases hl
    · exact congrArg some (Option.some.inj (Option.some.inj hl)).symm
  obtain ⟨hsaid, hget⟩ := hd.made m t d h.binding hm hdec
  have hplain := hd.plain hp hdur t d (h.plain j.id t hm) hdec
  refine ⟨hsaid, ?_⟩
  have hget' : x.server.get? x.now (f.keys.letter j.id) = some raw := by rw [h.get?_letter, hraw]
  cases d with
  | replace u =>
    obtain ⟨hu, hu'⟩ := hplain u rfl
    exact h.rewritten (rewrites_replace h.calm h.lasting hget') hget (Memory.binding_answer _)
      (congrArg some (Task.ofLetter_letter hu hu')) (isEmpty_markText u) hplain
      fun _ _ => h.issued j.id t hm
  | remove =>
    exact h.rewritten (rewrites_remove h.calm h.lasting hget') hget (Memory.binding_answer _) rfl
      rfl hplain fun _ _ => h.issued j.id t hm

theorem inserted (h : f.InStep x m) {task : Task} (hp : (Job.insert task).Plain)
    (hdur : task.Durable) (hm : m.get? task.id = none) (hi : task.id ∈ x.issued) :
    (Job.insert task).said (m.answer (Job.insert task).call).1 = .ok true ∧
      f.InStep { x with server :=
        (Server.writeAll x.now x.server (f.client.insertWrites f.binding task)).2 }
        (m.answer (Job.insert task).call).2 := by
  have hans : m.answer (.insert task) = (.ok (), m.add task) := by
    simp only [Memory.answer, Memory.whenBound, h.binding, hm]
    rfl
  have hmark : some (markText task) = mark? task := by
    simp only [markText, mark?, hp.1, if_true]
  refine ⟨?_, ?_⟩
  · show (m.answer (.insert task)).1.map (fun _ => true) = _
    rw [hans]
    rfl
  · show f.InStep _ (m.answer (.insert task)).2
    rw [hans]
    refine h.rewritten (o := some task) (rewrites_insert h.calm h.lasting rfl x.now f.binding task)
      (Memory.get?_add m task) rfl (congrArg some (Task.ofLetter_letter hp.2 hdur)) hmark ?_
      fun _ _ => hi
    rintro u hu
    obtain rfl := Option.some.inj hu
    exact ⟨hp.2, hdur⟩

/-- The transaction of a deletion leaves nothing of a task, whether there was one or not. -/
theorem deleted (h : f.InStep x m) (id : TaskId) :
    f.InStep { x with server :=
      ((x.server.del x.now (f.keys.letter id)).2.del x.now (f.keys.mark id)).2 }
      (m.answer (Job.delete id).call).2 :=
  h.rewritten (o := none) (rewrites_del h.calm h.lasting x.now) (Memory.get?_erase m id) rfl rfl rfl
    (fun _ hu => nomatch hu) fun _ hu => nomatch hu

end InStep

end MailQueue.Mirror

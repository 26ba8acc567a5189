import MailQueue.Proofs.Depot.Basic
import MailQueue.Proofs.Mirror.Turn

/-!
# The commands of a call

What a call of the store sends to the server, and what one of its commands does there.

* `Sends` says which commands a call sends, and `sends_of_path` that it sends no others, and none
  after it has written;
* `Effect` says what a command does: nothing to the letters and marks, or it rewrites those of one
  task for a `Reason`; `effect` is the proof;
* `isOpen_of_updates`: an update that does not resolve a task was decided on an open one, and
  `shut_of_claim`: a claim leaves a letter that says the task is not open.
-/

namespace MailQueue.Depot

open KeyValue KeyValue.Client
open Mirror (Rewrites task? mark? insertResult deleteResult)

/-- The scope as one that calls are made in. -/
def mirror (d : Depot) : Mirror := ⟨d.keys, Queue.binding d.config⟩

variable {d : Depot} {call : Store.Call} {id : TaskId} {decide : Task → Option Decision}
  {commands : List (MailQueue.Exchange Command Command.Answer)} {c : Command}

/-! ### What a call sends -/

/-- A command that writes nothing. -/
def Quiet (c : Command) : Prop := ∀ a, wrote c a = false

/-- The call is an update of the task, made by this decision. -/
inductive Updates (d : Depot) : Store.Call → TaskId → (Task → Option Decision) → Prop where
  | mutate (id : TaskId) (p : Patch) : Updates d (.mutate id p) id (patchDecision p)
  | cancel (id : TaskId) : Updates d (.cancel id) id (cancelDecision (Queue.binding d.config))

/-- What a call sends to the server. -/
inductive Sends (d : Depot) (call : Store.Call) : Command → Prop where
  | quiet {c : Command} (h : Quiet c) : Sends d call c
  | swap {id : TaskId} {decide : Task → Option Decision} (hu : Updates d call id decide) (w : Swap)
      {t : Task} (ht : Task.ofLetter w.raw = some t) (hd : decide t = some w.decision) :
      Sends d call (Update.command d.client id w)
  | insert (task : Task) (hc : call = .insert task) :
      Sends d call (.transaction (d.client.insertWrites (Queue.binding d.config) task))
  | delete (id : TaskId) (hc : call = .delete id) :
      Sends d call (.transaction [.del (d.keys.letter id), .del (d.keys.mark id)])

theorem answer_insert (d : Depot) (task : Task) :
    d.client.answer (.insert task) =
      .ask (.transaction (d.client.insertWrites (Queue.binding d.config) task)) fun a =>
        .done (insertResult a) :=
  Mirror.work_insert (mirror d) task

theorem answer_delete (d : Depot) (id : TaskId) :
    d.client.answer (.delete id) =
      .ask (.transaction [.del (d.keys.letter id), .del (d.keys.mark id)]) fun a =>
        .done (deleteResult a) :=
  Mirror.work_delete (mirror d) id

theorem wrote_transaction (writes : List Write) (a : Option (List Nat)) :
    wrote (.transaction writes) a = true := rfl

theorem quiet_get (key : String) : Quiet (.get key) := fun _ => rfl

theorem only_loadLetter (c : Client) (id : TaskId) : (c.loadLetter id).Only Quiet := by
  refine ⟨quiet_get _, fun found => ?_⟩
  rcases found with _ | _ | raw
  · trivial
  · trivial
  · simp only [Program.done_bind]
    split <;> trivial

theorem only_scanPages (c : Client) (pages cursor : Nat) :
    (c.scanPages pages cursor).Only Quiet := by
  induction pages generalizing cursor with
  | zero => trivial
  | succ pages ih =>
    refine ⟨fun _ => rfl, fun answer => ?_⟩
    rcases answer with _ | ⟨next, page⟩
    · trivial
    · simp only [Program.done_bind]
      split
      · trivial
      · refine (ih next).bind fun rest => ?_
        cases rest <;> trivial

theorem only_due (d : Depot) (now : Instant) : (d.client.answer (.due now)).Only Quiet := by
  refine Program.Only.bind (Program.Only.bind (only_scanPages _ _ _) fun keys => ?_) fun keys => ?_
  · cases keys <;> trivial
  · cases keys <;> trivial

theorem only_look (d : Depot) (key : String) (now : Instant) :
    (d.client.answer (.look key now)).Only Quiet := by
  show (d.client.look _ key now).Only Quiet
  unfold look
  split
  · trivial
  · refine ⟨quiet_get _, fun mark => ?_⟩
    rcases mark with _ | mark
    · trivial
    · simp only [Program.done_bind]
      split
      · trivial
      · split
        · trivial
        · refine (only_loadLetter _ _).bind fun found => ?_
          cases found <;> trivial

theorem only_find (d : Depot) (r : Recipient) (before : Instant) :
    (d.client.answer (.find r before)).Only Quiet := by
  refine ⟨quiet_get _, fun pointer => ?_⟩
  rcases pointer with _ | pointer
  · trivial
  · simp only [Program.done_bind]
    split
    · trivial
    · refine (only_loadLetter _ _).bind fun found => ?_
      cases found <;> trivial

theorem unwritten_of_course {cl : Client} {rounds : Nat} {u : Update}
    (h : Course (Update.Advance cl id decide) (.reading rounds) commands u)
    (hu : ∀ r, u ≠ .finished r) : ∀ x ∈ commands, wrote x.1 x.2 = false := by
  induction h with
  | refl => nofun
  | snoc _ step ih =>
    intro x hx
    cases step with
    | looked r found =>
      rcases List.mem_append.1 hx with hx | hx
      · exact ih (by simp) x hx
      · rw [List.mem_singleton.1 hx]
        rfl
    | taught r w answer =>
      rcases List.mem_append.1 hx with hx | hx
      · exact ih (by simp) x hx
      · rw [List.mem_singleton.1 hx]
        rfl
    | swapped r w wasTaught result =>
      rcases List.mem_append.1 hx with hx | hx
      · exact ih (by simp) x hx
      · rw [List.mem_singleton.1 hx]
        cases result with
        | applied n =>
          have hn : n ≠ 1 := fun hn => hu (.ok true) (by simp only [Update.swapped, if_pos hn])
          exact decide_eq_false hn
        | unknown | failed => rfl

theorem wrote_of_course {cl : Client} {rounds : Nat}
    (h : Course (Update.Advance cl id decide) (.reading rounds) commands (.finished (.ok true))) :
    ∃ x ∈ commands, wrote x.1 x.2 = true := by
  generalize hu : Update.finished (.ok true) = u at h
  cases h with
  | refl => cases hu
  | snoc _ step =>
    cases step with
    | looked r found =>
      rcases found with _ | _ | raw
      · cases hu
      · cases hu
      · simp only [Update.looked] at hu
        split at hu
        · cases hu
        · split at hu <;> cases hu
    | taught r w answer => rcases answer with _ | _ <;> cases hu
    | swapped r w wasTaught result =>
      cases result with
      | applied n =>
        simp only [Update.swapped] at hu
        split at hu
        · next hn => exact ⟨_, List.mem_append_right _ (List.mem_singleton_self _),
            decide_eq_true hn⟩
        · cases r <;> cases hu
      | unknown => cases wasTaught <;> cases hu
      | failed => cases hu

theorem sends_of_course (hu : Updates d call id decide) {u : Update}
    (h : Course (Update.Advance d.client id decide) (.reading 7) commands u)
    {next : c.Answer → KeyValue.Work (Except StoreError Bool)}
    (hw : .ask c next = u.work d.client id decide) :
    Sends d call c ∧ ∀ x ∈ commands, wrote x.1 x.2 = false := by
  have hs := Mirror.sound_of_course h
  have hgoing : ∀ r, u ≠ .finished r := by
    rintro r rfl
    cases hw
  refine ⟨?_, unwritten_of_course h hgoing⟩
  cases u with
  | reading rounds =>
    cases hw
    exact .quiet (quiet_get _)
  | swapping rounds w wasTaught =>
    obtain ⟨-, t, ht, hd⟩ := hs
    cases wasTaught with
    | false =>
      rw [Update.work_swapping] at hw
      cases hw
      exact .swap hu w ht hd
    | true =>
      cases hw
      exact .swap hu w ht hd
  | teaching rounds w =>
    cases hw
    exact .quiet fun _ => rfl
  | finished r => cases hw

/-- **A call sends nothing else**, and nothing after it has written. -/
theorem sends_of_path {next : c.Answer → KeyValue.Work call.Answer}
    (h : Program.Path (d.client.answer call) commands (.ask c next)) :
    Sends d call c ∧ ∀ x ∈ commands, wrote x.1 x.2 = false := by
  have hquiet : (d.client.answer call).Only Quiet →
      Sends d call c ∧ ∀ x ∈ commands, wrote x.1 x.2 = false := by
    intro ho
    obtain ⟨hc, hcommands⟩ := ho.of_path h
    exact ⟨.quiet hc.1, fun x hx => hcommands x hx x.2⟩
  cases call with
  | due now => exact hquiet (only_due d now)
  | look key now => exact hquiet (only_look d key now)
  | find r before => exact hquiet (only_find d r before)
  | insert task =>
    rw [answer_insert] at h
    rcases Mirror.single h with ⟨rfl, hask⟩ | ⟨a, -, hdone⟩
    · obtain ⟨rfl, -⟩ := Program.ask.inj hask
      exact ⟨.insert task rfl, nofun⟩
    · cases hdone
  | delete id =>
    rw [answer_delete] at h
    rcases Mirror.single h with ⟨rfl, hask⟩ | ⟨a, -, hdone⟩
    · obtain ⟨rfl, -⟩ := Program.ask.inj hask
      exact ⟨.delete id rfl, nofun⟩
    · cases hdone
  | mutate id p =>
    obtain ⟨u, hu, hw⟩ := Update.course 7 h
    exact sends_of_course (.mutate id p) hu hw
  | cancel id =>
    obtain ⟨u, hu, hw⟩ := Update.course 7 h
    exact sends_of_course (.cancel id) hu hw

theorem wrote_of_claim {p : Patch}
    (h : Program.Path (d.client.answer (.mutate id p)) commands (.done (.ok true))) :
    ∃ x ∈ commands, wrote x.1 x.2 = true := by
  obtain ⟨u, hu, hw⟩ := Update.course 7 h
  obtain rfl := Update.finished_of_done hw.symm
  exact wrote_of_course hu

/-! ### What a command does -/

/-- Why the letter of a task is rewritten, and which task is left. -/
inductive Reason (d : Depot) (v : Server) (call : Store.Call) : TaskId → Option Task → Prop where
  | swapped {id : TaskId} {decide : Task → Option Decision} (hu : Updates d call id decide)
      (w : Swap) {t : Task} (hraw : v.text? (d.keys.letter id) = some w.raw)
      (ht : Task.ofLetter w.raw = some t) (hd : decide t = some w.decision) :
      Reason d v call id (task? w.decision)
  | inserted (task : Task) (hc : call = .insert task) : Reason d v call task.id (some task)
  | deleted (id : TaskId) (hc : call = .delete id) : Reason d v call id none

/-- What a command does: it writes nothing, or it rewrites the letter and the mark of one task. -/
inductive Effect (d : Depot) (v : Server) (call : Store.Call) (c : Command) (a : c.Answer)
    (w : Server) : Prop where
  | quiet (hw : wrote c a = false) (he : w.entries = v.entries)
  | rewrites {id : TaskId} {o : Option Task} {mark : Option String} (hw : wrote c a = true)
      (why : Reason d v call id o) (hr : Rewrites d.keys id (o.map Task.letter) mark v w)
      (hk : ∀ id', d.keys.letter id' ∈ keysOf c ∨ d.keys.mark id' ∈ keysOf c → id' = id)

variable {v : Server}

theorem entries_of_quiet (hc : v.Calm) (h : Quiet c) (now : Int) :
    (v.answer now c).2.entries = v.entries := by
  cases c with
  | run => exact absurd (h (.applied 1)) (by simp [wrote])
  | transaction => exact absurd (h none) (by simp [wrote])
  | get | scan | ping => simp only [Server.answer, hc.takeFailure]
  | load => rw [hc.answer_load]

/-- The keys of a letter and a mark are those of one task. -/
theorem eq_of_mem_keys {k : Keys} {id id' : TaskId}
    (h : k.letter id' ∈ [k.letter id, k.mark id] ∨ k.mark id' ∈ [k.letter id, k.mark id]) :
    id' = id := by
  simp only [List.mem_cons, List.not_mem_nil, or_false] at h
  rcases h with (h | h) | (h | h)
  · exact Keys.letter_injective h
  · exact absurd h (Keys.letter_ne_mark id' id)
  · exact absurd h.symm (Keys.letter_ne_mark id id')
  · exact Keys.mark_injective h

theorem eq_of_mem_insertKeys {c : Client} {b : Binding} {task : Task} {id' : TaskId}
    (h : c.keys.letter id' ∈ keysOf (.transaction (c.insertWrites b task)) ∨
      c.keys.mark id' ∈ keysOf (.transaction (c.insertWrites b task))) : id' = task.id := by
  have hsub : ∀ key ∈ keysOf (.transaction (c.insertWrites b task)),
      key ∈ [c.keys.letter task.id, c.keys.mark task.id] ∨
        c.keys.pointer task.recipient = key := by
    intro key hkey
    cases hb : b.concatEnabled with
    | false => exact .inl (by simpa [insertWrites, keysOf, keyOf, hb] using hkey)
    | true =>
      simp only [insertWrites, hb, if_true, keysOf, List.map_append] at hkey
      rcases List.mem_append.1 hkey with hkey | hkey
      · exact .inl hkey
      · exact .inr (List.mem_singleton.1 hkey).symm
  rcases h with h | h
  · rcases hsub _ h with h | h
    · exact eq_of_mem_keys (.inl h)
    · exact absurd h (Keys.pointer_ne_letter _ _)
  · rcases hsub _ h with h | h
    · exact eq_of_mem_keys (.inr h)
    · exact absurd h (Keys.pointer_ne_mark _ _)

variable (hc : v.Calm) (hl : ∀ id, v.Lasting (d.keys.letter id) ∧ v.Lasting (d.keys.mark id))

include hc hl

theorem effect_swap (hu : Updates d call id decide) (w : Swap) {t : Task}
    (ht : Task.ofLetter w.raw = some t) (hd : decide t = some w.decision) (now : Int) :
    Effect d v call (Update.command d.client id w)
      (v.answer now (Update.command d.client id w)).1
      (v.answer now (Update.command d.client id w)).2 := by
  by_cases hkn : w.decision.script ∈ v.known
  · have hans : v.answer now (Update.command d.client id w) = _ := hc.answer_run hkn
    rw [hans]
    by_cases hraw : v.get? now (d.client.keys.letter id) = some w.raw
    · have htext : v.text? (d.keys.letter id) = some w.raw :=
        (Server.get?_of_lasting (hl id).1 now).symm.trans hraw
      have hr : ∃ mark, Rewrites d.keys id ((task? w.decision).map Task.letter) mark v
          (v.runScript now w.decision.script (d.keys.letter id) (d.keys.mark id) w.raw
            w.decision.letter w.decision.mark).2 := by
        rcases w with ⟨raw, u | _⟩
        · exact ⟨_, Mirror.rewrites_replace hc hl hraw⟩
        · exact ⟨_, Mirror.rewrites_remove hc hl hraw⟩
      obtain ⟨mark, hr⟩ := hr
      rw [Server.runScript_applied hraw]
      exact .rewrites rfl (.swapped hu w htext ht hd) hr fun id' h => eq_of_mem_keys h
    · rw [Server.runScript_of_ne hraw]
      exact .quiet rfl rfl
  · have hans : v.answer now (Update.command d.client id w) = _ := hc.answer_run_of_unknown hkn
    rw [hans]
    exact .quiet rfl rfl

/-- **A command writes nothing, or rewrites one letter with its mark for a reason.** -/
theorem effect (hs : Sends d call c) (now : Int) :
    Effect d v call c (v.answer now c).1 (v.answer now c).2 := by
  cases hs with
  | quiet h => exact .quiet (h _) (entries_of_quiet hc h now)
  | swap hu w ht hd => exact effect_swap hc hl hu w ht hd now
  | insert task h =>
    rw [hc.answer_transaction]
    refine .rewrites (wrote_transaction _ _) (.inserted task h)
      (Mirror.rewrites_insert (c := d.client) hc hl rfl now (Queue.binding d.config) task)
      fun id' h => ?_
    exact eq_of_mem_insertKeys (c := d.client) h
  | delete id h =>
    rw [hc.answer_transaction]
    exact .rewrites (wrote_transaction _ _) (.deleted id h) (Mirror.rewrites_del hc hl now)
      fun id' h => eq_of_mem_keys h

omit hc hl

/-! ### Letters that are not open -/

/-- Whoever reads the letter finds a task that is not open. -/
def Shut (raw : String) : Prop := ∀ t, Task.ofLetter raw = some t → t.isOpen = false

/-- An update that does not resolve a task was decided on an open one. -/
theorem isOpen_of_updates {t : Task} {decision : Decision} (hu : Updates d call id decide)
    (hr : resolved? call ≠ some id) (hd : decide t = some decision) : t.isOpen = true := by
  cases hu with
  | mutate id p =>
    obtain ⟨u, ha, -⟩ := Option.map_eq_some_iff.1 hd
    have hg : p.guardHolds t = true := by
      unfold Patch.applied? at ha
      split at ha
      · assumption
      · cases ha
    unfold Patch.guardHolds at hg
    split at hg
    · next hn => simp [resolved?, hn] at hr
    · next g _ =>
      cases g with
      | unclaimed => exact (Bool.and_eq_true_iff.1 hg).1
      | appendable => exact (Bool.and_eq_true_iff.1 (Bool.and_eq_true_iff.1 hg).1).1
  | cancel id =>
    unfold cancelDecision at hd
    split at hd
    · cases hd
    · next h => simpa using h

/-- A claim leaves a letter that says the task is not open. -/
theorem shut_of_claim {previous attempts : UInt32} {raw : String} {t : Task} {decision : Decision}
    (ht : Task.ofLetter raw = some t)
    (hd : patchDecision (.claim previous attempts) t = some decision) :
    ∃ u, task? decision = some u ∧ Shut u.letter := by
  obtain ⟨u, ha, rfl⟩ := Option.map_eq_some_iff.1 hd
  refine ⟨u, rfl, fun t' ht' => ?_⟩
  unfold Patch.applied? at ha
  split at ha
  · obtain rfl := Option.some.inj ha
    have he : ((Patch.claim previous attempts).apply t).transport = t.transport := rfl
    have htransport : ((Patch.claim previous attempts).apply t).transport < UInt64.size := by
      rw [he]
      exact Task.transport_of_ofLetter ht
    rw [Task.isOpen_of_letter htransport ht']
    simp [Task.isOpen, Patch.apply, Patch.claim]
  · cases ha

end MailQueue.Depot

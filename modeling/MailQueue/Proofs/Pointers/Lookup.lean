import MailQueue.Proofs.GivenBack
import MailQueue.Proofs.Pointers.Basic

/-!
# What a pointer leads to

A look for a task to join reads the pointer of a recipient and then the letter that it leads to.
Between the two reads any other call may write.

* `Lookup` says what a look ends with, told by what stood on the server at its reads;
* `lookup`: so does each look that has ended, however the calls of the clients take turns, and a
  look has ended when it was answered twice;
* `not_foundAlways`: a letter that is too deep for the reader is an error, and not passed over.
-/

namespace MailQueue.Pointers

open Interleaving KeyValue KeyValue.Client

def Stored (k : Keys) (x : Shared) (t : Task) : Prop :=
  (x.get? (k.letter t.id)).bind Task.ofLetter = some t

/-- The pointer of a recipient was read, and led to a task. -/
structure Led (k : Keys) (r : Recipient) (e : Entry) (id : TaskId) : Prop where
  ask : e.ask = .get (k.pointer r)
  found : e.before.get? (k.pointer r) = some id.text

/-- What a look ends with after the records of its reads. -/
inductive Lookup (k : Keys) (r : Recipient) (before : Instant) :
    List Entry → Except StoreError (Option Task) → Prop where
  /-- There is no pointer. -/
  | bare {e : Entry} (ask : e.ask = .get (k.pointer r)) (h : e.before.get? (k.pointer r) = none) :
      Lookup k r before [e] (.ok none)
  /-- The task is gone. -/
  | gone {e d : Entry} {id : TaskId} (led : Led k r e id) (ask : d.ask = .get (k.letter id))
      (h : d.before.get? (k.letter id) = none) : Lookup k r before [e, d] (.ok none)
  /-- The task is not open any more, or sent later. -/
  | passed {e d : Entry} {t : Task} (led : Led k r e t.id) (ask : d.ask = .get (k.letter t.id))
      (stored : Stored k d.before t) (group : t.recipient.groupingKey = r.groupingKey)
      (h : ¬(t.isOpen = true ∧ t.sendAt ≤ before)) : Lookup k r before [e, d] (.ok none)
  /-- The task may be joined. -/
  | found {e d : Entry} {t : Task} (led : Led k r e t.id) (ask : d.ask = .get (k.letter t.id))
      (stored : Stored k d.before t) (group : t.recipient.groupingKey = r.groupingKey)
      (isOpen : t.isOpen = true) (le : t.sendAt ≤ before) : Lookup k r before [e, d] (.ok (some t))
  /-- The letter cannot be read. -/
  | unreadable {e d : Entry} {id : TaskId} {raw : String} (led : Led k r e id)
      (ask : d.ask = .get (k.letter id)) (h : d.before.get? (k.letter id) = some raw)
      (hraw : Task.ofLetter raw = none) : Lookup k r before [e, d] (.error .unreadable)

variable {k : Keys} {P : Mail → Prop} {v : Server} {x₀ x : Shared} {s : State} {r : Recipient}
  {before : Instant}

/-! ### Reads -/

/-- A pointer leads to a task of the group. -/
theorem Held.led (h : Held k P x.server x.issued) {value : String}
    (hv : x.get? (k.pointer r) = some value) :
    ∃ id r', value = id.text ∧ (id, r') ∈ x.issued ∧ r'.groupingKey = r.groupingKey := by
  have hv : ((Server.live x.now x.server.entries).get? (k.pointer r)).map Cell.value =
    some value := hv
  obtain ⟨cell, hcell, rfl⟩ := Option.map_eq_some_iff.1 hv
  exact h.pointers _ (Server.mem_live (Entries.mem_of_get? hcell)) r rfl

theorem Held.read (h : Held k P x.server x.issued) {id : TaskId} {raw : String} {t : Task}
    (hraw : x.get? (k.letter id) = some raw) (ht : Task.ofLetter raw = some t) :
    t.id = id ∧ Stored k x t ∧ (id, t.recipient) ∈ x.issued := by
  obtain ⟨t₀, rfl, hfit⟩ := h.letters id raw
    ((Server.get?_of_lasting (h.lasting id).1 x.now).symm.trans hraw)
  have hid : t.id = id ∧ (id, t.recipient) ∈ x.issued := by
    rw [Task.ofLetter_letter_eq hfit.fits.2] at ht
    obtain ⟨ms, -, rfl⟩ := Option.map_eq_some_iff.1 ht
    exact ⟨hfit.fits.1, hfit.issued⟩
  refine ⟨hid.1, ?_, hid.2⟩
  rw [Stored, hid.1, hraw, Option.bind_some]
  exact ht

/-- A letter with mails that are given back can be read. -/
theorem Held.readable (h : Held k (fun m => m.Plain ∧ m.Durable) x.server x.issued) {id : TaskId}
    {raw : String} (hraw : x.get? (k.letter id) = some raw) : ∃ t, Task.ofLetter raw = some t := by
  obtain ⟨t₀, rfl, hfit⟩ := h.letters id raw
    ((Server.get?_of_lasting (h.lasting id).1 x.now).symm.trans hraw)
  rw [Task.ofLetter_letter_eq hfit.fits.2, Mail.mapM_reread_of_plain
    (fun m hm => (hfit.mails m hm).1) fun m hm => (hfit.mails m hm).2]
  exact ⟨_, rfl⟩

theorem reread_true : Reread fun _ => True := fun _ _ _ _ => trivial

theorem reread_durable : Reread fun m => m.Plain ∧ m.Durable := fun m m' h hm => by
  rw [h.1.reread?_eq h.2] at hm
  exact Option.some.inj hm ▸ h

theorem hands_true (s : State) : Hands (fun _ => True) s := by
  rintro n ⟨b, request⟩ w -
  rcases request with (_ | _ | _ | _) | _
  · exact fun m _ => trivial
  · exact fun ms _ m _ => trivial
  all_goals trivial

/-- There is no error when letters give back what was handed over. -/
theorem Lookup.isOk {es : List Entry} {res : Except StoreError (Option Task)}
    (h : Lookup k r before es res)
    (hes : ∀ e ∈ es, Held k (fun m => m.Plain ∧ m.Durable) e.before.server e.before.issued) :
    ∃ o, res = .ok o := by
  cases h with
  | @unreadable e d id raw led ask hget hraw =>
    obtain ⟨t, ht⟩ := (hes d (by simp)).readable hget
    rw [hraw] at ht
    cases ht
  | _ => exact ⟨_, rfl⟩

theorem path_find {c : Client} {l : List (Exchange Command Command.Answer)}
    {w : Work (Except StoreError (Option Task))} (h : Program.Path (c.find r before) l w) :
    l.length < 2 ∧ (∀ res, w ≠ .done res) ∨
      (∃ a, l = [⟨.get (c.keys.pointer r), a⟩] ∧ (∀ o, a = some o → o.bind TaskId.parse? = none) ∧
        w = .done (a.elim (.error serverError) fun _ => .ok none)) ∨
      ∃ o id a, l = [⟨.get (c.keys.pointer r), some o⟩, ⟨.get (c.keys.letter id), a⟩] ∧
        o.bind TaskId.parse? = some id ∧ w = .done (joined before a) := by
  rw [find_eq] at h
  rcases h.of_ask with ⟨rfl, rfl⟩ | ⟨a, l', rfl, hrest⟩
  · exact .inl ⟨Nat.zero_lt_two, fun _ he => by cases he⟩
  rcases a with _ | o
  · obtain ⟨rfl, rfl⟩ := hrest.of_done
    exact .inr (.inl ⟨none, rfl, nofun, rfl⟩)
  rcases ho : o.bind TaskId.parse? with _ | id <;> simp only [followed, ho] at hrest
  · obtain ⟨rfl, rfl⟩ := hrest.of_done
    exact .inr (.inl ⟨some o, rfl, fun o' he => Option.some.inj he ▸ ho, rfl⟩)
  · rcases hrest.of_ask with ⟨rfl, rfl⟩ | ⟨a, l, rfl, hlast⟩
    · exact .inl ⟨Nat.one_lt_two, fun _ he => by cases he⟩
    · obtain ⟨rfl, rfl⟩ := hlast.of_done
      exact .inr (.inr ⟨o, id, a, rfl, ho, rfl⟩)

/-! ### What the records of reads tell -/

/-- What a record of a read tells. -/
structure ReadAt (k : Keys) (P : Mail → Prop) (s : State) (key : String)
    (a : Option (Option String)) (e : Entry) : Prop where
  ask : e.ask = .get key
  answer : a = some (e.before.get? key)
  held : Held k P e.before.server e.before.issued
  issued : e.before.issued ⊆ s.shared.issued

/-- What the two reads of a look come to. -/
theorem lookup_of_reads (h : Held k P s.shared.server s.shared.issued) {e d : Entry}
    {o : Option String} {id : TaskId} {a : Option (Option String)}
    (he : ReadAt k P s (k.pointer r) (some o) e) (ho : o.bind TaskId.parse? = some id)
    (hd : ReadAt k P s (k.letter id) a d) : Lookup k r before [e, d] (joined before a) := by
  obtain ⟨value, rfl, hid⟩ := Option.bind_eq_some_iff.1 ho
  have hvalue := (Option.some.inj he.answer).symm
  obtain ⟨id', r', rfl, hr', hgroup⟩ := he.held.led hvalue
  obtain rfl : id' = id := Option.some.inj ((TaskId.parse?_text id').symm.trans hid)
  have hled : Led k r e id' := ⟨he.ask, hvalue⟩
  rw [hd.answer]
  rcases hraw : d.before.get? (k.letter id') with _ | raw
  · exact .gone hled hd.ask hraw
  rcases ht : Task.ofLetter raw with _ | t <;> simp only [joined, ht]
  · exact .unreadable hled hd.ask hraw ht
  obtain ⟨rfl, hstored, ht'⟩ := hd.held.read hraw ht
  -- the identifier was brought up once, for the recipient of the pointer and of the letter
  have hgroup : t.recipient.groupingKey = r.groupingKey := by
    rw [h.unique t.id _ _ (hd.issued ht') (he.issued hr'), hgroup]
  split
  · next hopen => exact .found hled hd.ask hstored hgroup hopen.1 hopen.2
  · next hopen => exact .passed hled hd.ask hstored hgroup hopen

section Run

variable (hP : Reread P) (hr : Run (rules k) { shared := x₀ } s)
  (h₀ : Held k P x₀.server x₀.issued) (hh : Hands P s)

include hP hr h₀ hh

theorem held_of_mem {e : Entry} (he : e ∈ s.log) : Held k P e.before.server e.before.issued ∧
    e.before.issued ⊆ s.shared.issued ∧ e.answer = (e.before.server.answer e.before.now e.ask).1 := by
  obtain ⟨pre, post, hlog⟩ := List.append_of_mem he
  obtain ⟨t, next, y, hrt, -, hshared, asks, hans, hrest⟩ := hr.split hlog
  have hstep : Run (rules k) t s :=
    Run.trans (.snoc .refl (.answer asks (hshared ▸ hans))) hrest
  have hheld := held_of_run hP hrt h₀ (hh.of_run hstep)
  rw [hshared] at hheld
  exact ⟨hheld, hshared ▸ issued_subset hstep, hans.1⟩

theorem readAt_of_mem {e : Entry} {key : String} {a : Option (Option String)} (he : e ∈ s.log)
    (hx : e.exchange = ⟨.get key, a⟩) : ReadAt k P s key a e := by
  obtain ⟨hheld, hissued, hans⟩ := held_of_mem hP hr h₀ hh he
  obtain ⟨n, j, q, b, x⟩ := e
  cases hx
  refine ⟨rfl, ?_, hheld, hissued⟩
  rw [hans, hheld.calm.answer_get]
  rfl

/-- A look that has ended has read so. -/
theorem lookup_of_run {n : Nat} {b : Binding} {w : Work (Except StoreError (Option Task))}
    (hn : s.threads[n]? = some ⟨⟨b, .find r before⟩, w⟩) :
    (∃ res, w = .done res ∧ Lookup k r before (s.log.filter fun e => e.thread == n) res) ∨
      (s.past n).length < 2 ∧ ∀ res, w ≠ .done res := by
  have hmem : ∀ {e}, e ∈ (s.log.filter fun e => e.thread == n) → e ∈ s.log :=
    List.mem_of_mem_filter
  have hpath : Program.Path (Client.find ⟨k, some b⟩ r before) (s.past n) w := hr.path hn
  rcases path_find hpath with hleft | ⟨a, hpast, ha, rfl⟩ | ⟨o, id, a, hpast, ho, rfl⟩
  · exact .inr hleft
  · obtain ⟨e, he, hx⟩ := List.map_eq_singleton_iff.1 hpast
    have hread := readAt_of_mem hP hr h₀ hh (hmem (he ▸ List.mem_singleton_self e)) hx
    refine .inl ⟨_, rfl, ?_⟩
    rw [he, hread.answer]
    rcases hget : e.before.get? (k.pointer r) with _ | value
    · exact .bare hread.ask hget
    · -- what stands under a pointer is an identifier
      obtain ⟨id, -, rfl, -⟩ := hread.held.led hget
      have hnone := ha _ (hread.answer.trans (congrArg some hget))
      rw [Option.bind_some, TaskId.parse?_text] at hnone
      cases hnone
  · obtain ⟨e, es, he, hx, hpast⟩ := List.map_eq_cons_iff.1 hpast
    obtain ⟨d, rfl, hy⟩ := List.map_eq_singleton_iff.1 hpast
    have hreadE := readAt_of_mem hP hr h₀ hh (hmem (he ▸ List.mem_cons_self)) hx
    have hreadD := readAt_of_mem hP hr h₀ hh
      (hmem (he ▸ List.mem_cons_of_mem _ (List.mem_singleton_self d))) hy
    refine .inl ⟨_, rfl, ?_⟩
    rw [he]
    exact lookup_of_reads (held_of_run hP hr h₀ hh) hreadE ho hreadD

end Run

/-- **What a look for a task to join ends with**, however the calls of the clients take turns and
whenever pointers expire: with a task that at the read of its letter is stored, open, of the group
of the recipient and sent by then, or with nothing, or with an error just when the letter cannot be
read. There is no error as long as all mails that were handed over are given back by letters. A look
has ended when it was answered twice. -/
theorem lookup (hc : v.Calm) (hv : Vacant k v) {now : Int}
    (hr : Run (rules k) { shared := ⟨v, now, []⟩ } s) {n : Nat} {b : Binding}
    {w : Work (Except StoreError (Option Task))}
    (hn : s.threads[n]? = some ⟨⟨b, .find r before⟩, w⟩) :
    (∃ res, w = .done res ∧ Lookup k r before (s.log.filter fun e => e.thread == n) res ∧
      (Hands (fun m => m.Plain ∧ m.Durable) s → ∃ o, res = .ok o)) ∨
      (s.past n).length < 2 ∧ ∀ res, w ≠ .done res := by
  have h₀ : ∀ P, Held k P v [] := fun P => .of_vacant hc hv
  rcases lookup_of_run reread_true hr (h₀ _) (hands_true s) hn with
    ⟨res, rfl, hl⟩ | hleft
  · refine .inl ⟨res, rfl, hl, fun hh => hl.isOk fun e he => ?_⟩
    exact (held_of_mem reread_durable hr (h₀ _) hh (List.mem_of_mem_filter he)).1
  · exact .inr hleft

/-! ### A look right after an insertion -/

/-- The answer of the server, as a step on what the clients share. -/
def serverStep (q : Command) (x : Shared) : q.Answer × Shared :=
  ((x.server.answer x.now q).1, { x with server := (x.server.answer x.now q).2 })

theorem run_serverStep {α : Type} (w : Work α) (x : Shared) : w.run serverStep x =
    ((w.run (Server.answer x.now) x.server).1,
      { x with server := (w.run (Server.answer x.now) x.server).2 }) := by
  induction w generalizing x with
  | done res => rfl
  | ask q next ih => exact ih _ _

theorem exists_run_call {j : Job} (hj : j.request.Fair)
    (hnew : ∀ e ∈ j.request.issues, e.1 ∉ s.shared.issued.map Prod.fst) :
    let done := ((j.client k).answer j.request.call).run (Server.answer s.shared.now) s.shared.server
    ∃ t, Run (rules k) s t ∧ t.threads = s.threads ++ [⟨j, .done done.1⟩] ∧
      t.shared = ⟨done.2, s.shared.now, j.request.issues ++ s.shared.issued⟩ := by
  have hn : (s.started (rules k) j { s.shared with
      issued := j.request.issues ++ s.shared.issued }).threads[s.threads.length]? =
      some ⟨j, (rules k).work j⟩ := by simp [State.started]
  obtain ⟨t, hrun, hshared, hthreads⟩ :=
    exists_run_done (R := rules k) serverStep (fun _ _ _ => ⟨rfl, rfl⟩) hn
  rw [run_serverStep] at hshared hthreads
  refine ⟨t, Run.trans (.snoc .refl (.start ⟨hj, hnew, rfl⟩)) hrun, ?_, hshared⟩
  rw [hthreads]
  simp [State.started]
  rfl

theorem get?_live_of {es : Entries Cell} {now : Int} {key : String}
    (h : ∀ e ∈ es, e.1 = key → e ∈ Server.live now es) :
    (Server.live now es).get? key = es.get? key :=
  Entries.get?_filter fun e he hk => (List.mem_filter.1 (h e he hk)).2

theorem get?_set_self {now : Int} {key value : String} {expires : Option Int}
    (h : ∀ t, expires = some t → now < t) :
    (v.set now key value expires).get? now key = some value := by
  have hput : ∀ e ∈ (Server.live now v.entries).put key ⟨value, expires⟩, e.1 = key →
      e ∈ Server.live now ((Server.live now v.entries).put key ⟨value, expires⟩) := by
    intro e he _
    refine List.mem_filter.2 ⟨he, ?_⟩
    rcases Entries.mem_put he with rfl | he
    · rcases expires with _ | t
      · rfl
      · exact decide_eq_true (h t rfl)
    · exact (List.mem_filter.1 he).2
  rw [Server.get?, Server.set, get?_live_of, get?_live_of hput, Entries.get?_put, if_pos rfl]
  · rfl
  · exact fun e he _ => List.mem_filter.2 ⟨he, (List.mem_filter.1 he).2⟩

theorem get?_insertWrites (hc : v.Calm) (hl : ∀ id, v.Lasting (k.letter id) ∧ v.Lasting (k.mark id))
    {now : Int} {c : Client} (hk : c.keys = k) {b : Binding} (hb : b.concatEnabled = true)
    {task : Task} (hpos : 0 < pointerExpiry task) (hnow : now < pointerExpiry task) :
    let w := (Server.writeAll now v (c.insertWrites b task)).2
    w.get? now (k.letter task.id) = some task.letter ∧
      w.get? now (k.pointer task.recipient) = some task.id.text := by
  intro w
  have hw : Mirror.Rewrites k task.id (some task.letter) (some (markText task)) v w :=
    Mirror.rewrites_insert hc hl hk now b task
  refine ⟨?_, ?_⟩
  · rw [Server.get?_of_lasting (hw.lasting task.id).1, hw.letters, if_pos rfl]
  · subst hk
    have hset : w = ((v.set now (c.keys.letter task.id) task.letter none).set now
        (c.keys.mark task.id) (markText task) none).set now (c.keys.pointer task.recipient)
        task.id.text (some (pointerExpiry task)) := by
      have hnot : ¬pointerExpiry task ≤ 0 := by omega
      simp only [w, insertWrites, hb, if_true]
      show (Server.write now _ (.set _ _ (some (pointerExpiry task)))).2 = _
      simp only [Server.write, if_neg hnot]
    rw [hset]
    exact get?_set_self fun t ht => Option.some.inj ht ▸ hnow

theorem run_find (hc : v.Calm) (now : Int) {c : Client} {id : TaskId}
    (hp : v.get? now (c.keys.pointer r) = some id.text) :
    ((c.find r before).run (Server.answer now) v).1 =
      joined before (some (v.get? now (c.keys.letter id))) := by
  rw [find_eq, Program.run, hc.answer_get, hp]
  simp only [followed, Option.bind_some, TaskId.parse?_text, Program.run, hc.answer_get]

theorem exists_run_insert (k : Keys) (b : Binding) {task : Task}
    (hf : (Request.write (.insert task)).Fair) :
    ∃ (s : State) (w : Work (Except StoreError Unit)),
      Run (rules k) { shared := ⟨{}, 0, []⟩ } s ∧ s.threads = [⟨⟨b, .write (.insert task)⟩, w⟩] ∧
      s.shared = ⟨(Server.writeAll 0 {} (Client.insertWrites ⟨k, some b⟩ b task)).2, 0,
        [(task.id, task.recipient)]⟩ := by
  have hcalm : ({} : Server).Calm := ⟨rfl, rfl⟩
  have hrun : (((Client.mk k (some b)).answer (.insert task)).run (Server.answer 0) {}).2 =
      (Server.writeAll 0 {} (Client.insertWrites ⟨k, some b⟩ b task)).2 := by
    rw [show (Client.mk k (some b)).answer (.insert task) = _ from Mirror.work_insert ⟨k, b⟩ task]
    show (Server.answer 0 (.transaction (Client.insertWrites ⟨k, some b⟩ b task)) {}).2 = _
    rw [hcalm.answer_transaction]
  obtain ⟨s, hs, hthreads, hshared⟩ := exists_run_call (k := k) (s := { shared := ⟨{}, 0, []⟩ })
    (j := ⟨b, .write (.insert task)⟩) hf (by simp)
  refine ⟨s, _, hs, hthreads, hshared.trans ?_⟩
  exact congrArg (Shared.mk · 0 _) hrun

/-- **A look right after an insertion** is led to the letter of the task. -/
theorem exists_run_find (k : Keys) {b : Binding} (hb : b.concatEnabled = true) {task : Task}
    (hf : (Request.write (.insert task)).Fair) (hpos : 0 < pointerExpiry task) (before : Instant) :
    ∃ (s : State) (w : Work (Except StoreError Unit)),
      Run (rules k) { shared := ⟨{}, 0, []⟩ } s ∧
      s.threads = [⟨⟨b, .write (.insert task)⟩, w⟩, ⟨⟨b, .find task.recipient before⟩,
        .done (joined before (some (some task.letter)))⟩] := by
  obtain ⟨s, w, hs, hthreads, hshared⟩ := exists_run_insert k b hf
  obtain ⟨t, ht, hthreads', -⟩ := exists_run_call (k := k) (s := s)
    (j := ⟨b, .find task.recipient before⟩) trivial (by simp [Request.issues])
  refine ⟨t, w, hs.trans ht, hthreads'.trans ?_⟩
  obtain ⟨hletter, hpointer⟩ := get?_insertWrites (k := k) (c := ⟨k, some b⟩) (v := {}) (b := b)
    ⟨rfl, rfl⟩ (fun _ => ⟨nofun, nofun⟩) rfl hb hpos hpos
  have hc := (Server.Calm.mk rfl rfl : ({} : Server).Calm).writeAll 0
    (Client.insertWrites ⟨k, some b⟩ b task)
  have hfind : ((Client.find ⟨k, some b⟩ task.recipient before).run (Server.answer 0) _).1 = _ :=
    run_find hc 0 hpointer
  rw [hletter] at hfind
  rw [hthreads, hshared]
  exact congrArg (fun res => [_, Thread.mk (Job.mk b (.find task.recipient before)) (.done res)])
    hfind

def second : Instant := ⟨1000000000, by decide, by decide⟩

/-- A task with a further field in its only mail, to be sent a second after the epoch. -/
def later (v : Value) : Task := { Task.enclosing v with sendAt := second }

theorem pointerExpiry_later (v : Value) : 0 < pointerExpiry (later v) := by
  show (0 : Int) < second.ms - pointerLeadMs
  decide

theorem ofLetter_later {v : Value} (hl : v.Lawful) (hf : v.Faithful) :
    Task.ofLetter (later v).letter = if v.depth ≤ 124 then some (later v) else none := by
  have hread := Task.ofLetter_letter_of_faithful (t := later v) (Nat.zero_lt_succ _)
    (Task.plain_of_enclosing hl) (Task.faithful_of_enclosing hf)
  have hdepth : (later v).Shallow ↔ v.depth ≤ 124 := by
    have hentries : Value.depthEntries [("x", v)] ≤ 124 ↔ v.depth ≤ 124 := by
      simp [Value.depthEntries]
    exact List.forall_mem_singleton.trans hentries
  rw [hread]
  simp only [hdepth]
  rfl

theorem exists_later : ∃ t : Task, (Request.write (.insert t)).Fair ∧ 0 < pointerExpiry t ∧
    Task.ofLetter t.letter = some t ∧ t.recipient = .one "a@x" ∧ t.sendAt = second := by
  refine ⟨later (.list [.int 1]), ⟨rfl, Nat.zero_lt_succ _⟩, pointerExpiry_later _, ?_, rfl, rfl⟩
  rw [ofLetter_later (by simp [Value.Lawful, Value.LawfulItems])
    (by simp [Value.Faithful, Value.FaithfulItems]), if_pos (by decide)]

theorem lookup_later : ∃ (s : State) (t : Task), t.isOpen = true ∧
    Run (rules ⟨"default"⟩) { shared := ⟨{}, 0, []⟩ } s ∧
    Lookup ⟨"default"⟩ (.one "a@x") second (s.log.filter fun e => e.thread == 1) (.ok (some t)) := by
  obtain ⟨t, hf, hpos, hread, hto, hat⟩ := exists_later
  obtain ⟨s, w, hr, hthreads⟩ := exists_run_find ⟨"default"⟩ (b := ⟨60, false, true⟩) rfl hf hpos
    second
  have hopen : t.isOpen = true ∧ t.sendAt ≤ second := ⟨hf.1, hat ▸ Int.le_refl _⟩
  simp only [joined, hread, if_pos hopen] at hthreads
  refine ⟨s, t, hopen.1, hr, ?_⟩
  rcases lookup (v := {}) ⟨rfl, rfl⟩ (fun e he => absurd he List.not_mem_nil) hr (n := 1)
    (by rw [hthreads]; rfl) with ⟨res, hdone, hl, -⟩ | ⟨-, hleft⟩
  · obtain rfl := Program.done.inj hdone
    exact hto ▸ hl
  · exact absurd rfl (hleft _)

/-- A look ends with nothing or with an open task of the group, whatever its letter. -/
def FoundAlways : Prop :=
  ∀ (k : Keys) (v : Server) (now : Int) (s : State), v.Calm → Vacant k v →
    Run (rules k) { shared := ⟨v, now, []⟩ } s →
    (∀ (n : Nat) (j : Job) (w : Work j.Result), s.threads[n]? = some ⟨j, w⟩ →
      j.binding.concatEnabled = true) →
    ∀ (n : Nat) (b : Binding) (r : Recipient) (before : Instant)
      (res : Except StoreError (Option Task)),
      s.threads[n]? = some ⟨⟨b, .find r before⟩, .done res⟩ →
      res = .ok none ∨ ∃ t, res = .ok (some t) ∧
        (∃ d ∈ s.log, d.thread = n ∧ d.ask = .get (k.letter t.id) ∧ Stored k d.before t) ∧
        t.isOpen = true ∧ t.recipient.groupingKey = r.groupingKey ∧ t.sendAt ≤ before

theorem not_foundAlways_of_unread {task : Task} (hf : (Request.write (.insert task)).Fair)
    (hpos : 0 < pointerExpiry task) (hraw : Task.ofLetter task.letter = none) : ¬FoundAlways := by
  intro h
  obtain ⟨s, w, hr, hthreads⟩ := exists_run_find ⟨"default"⟩ (b := ⟨60, false, true⟩) rfl hf hpos
    task.sendAt
  simp only [joined, hraw] at hthreads
  have hconcat : ∀ (n : Nat) (j : Job) (w : Work j.Result), s.threads[n]? = some ⟨j, w⟩ →
      j.binding.concatEnabled = true := by
    intro n j w hn
    have hmem := List.mem_of_getElem? hn
    rw [hthreads] at hmem
    rcases List.mem_pair.1 hmem with he | he <;> exact congrArg (·.job.binding.concatEnabled) he
  rcases h ⟨"default"⟩ {} 0 s ⟨rfl, rfl⟩ (fun e he => absurd he List.not_mem_nil) hr hconcat 1 _ _ _ _
    (by rw [hthreads]; rfl) with hnone | ⟨t, hsome, -⟩
  · cases hnone
  · cases hsome

/-- A value that stands 125 deep in a mail is written and not read, so the look is an error. -/
theorem not_foundAlways : ¬FoundAlways := by
  have hdeep : Task.ofLetter (later (Task.nested 125)).letter = none := by
    rw [ofLetter_later (Task.lawful_nested 125) (Task.faithful_nested 125), Task.depth_nested,
      if_neg (by decide)]
  exact not_foundAlways_of_unread ⟨rfl, Nat.zero_lt_succ _⟩ (pointerExpiry_later _) hdeep

end MailQueue.Pointers

import MailQueue.Proofs.Equivalence
import MailQueue.Proofs.Fleet.Intake
import MailQueue.Proofs.Fleet.Play
import MailQueue.Proofs.Memory

/-!
# The same mail again

Requests that are taken in one after the other where mails are merged, with nothing else going on.
A look-up sees one open task only, the one that is sent last. A mail that waits in an earlier task
is not seen, and taken in a second time.

* `Queue.takeIn` takes a request in alone, and `Arrivals` are such requests one after the other;
* `Memory.Descending`: for the same recipients a task that is opened later is sent earlier, so that
  the look-up has no choice (`Arrivals.orderly`, `Memory.Latest`);
* `takeIn_admitted` is what becomes of a request;
* `repeats`: the same mail is left out if the task that is sent last holds it, and from then on
  whenever it is to be sent at the same time.
-/

namespace MailQueue

open Queue

/-- Some mail of the task has the same content. -/
def Task.carries (t : Task) (mail : Mail) : Bool := t.fragments.any fun m => m.equivalent mail

def Task.joinedBy (t : Task) (mail : Mail) : Task := { t with fragments := t.fragments ++ [mail] }

/-- How the questions of a request are answered that is taken in alone, at this time and with this
identifier to hand out. It asks for nothing else. -/
def Intake.reply (now : Instant) (id : TaskId) : (a : Ask) → Memory → a.Answer × Memory
  | .now, m => (now, m)
  | .freshId, m => (id, m)
  | .store c, m => m.answer c
  | .pick stored, m => (stored, m)
  | .send _ _, m => (.crash "", m)
  | .tell _, m => ((), m)

namespace Queue

/-- Takes a request in alone: what it ends with, and the store then. -/
def takeIn (q : Queue) (now : Instant) (id : TaskId) (r : Request) (m : Memory) :
    Except EnqueueError TaskId × Memory :=
  (q.enqueue r).run (Intake.reply now id) m

/-- The end of the window of a request that is not refused. -/
def window? (q : Queue) (now : Instant) (r : Request) : Option Instant :=
  if r.mail.hasBody && r.mail.recipient.valid then (q.windowEnd (r.sendAt.getD now)).toOption
  else none

end Queue

/-- Requests are taken in one after the other, each with an identifier that is not in use. -/
inductive Arrivals (q : Queue) (m : Memory) : Memory → Prop where
  | refl : Arrivals q m m
  | snoc {m' : Memory} (h : Arrivals q m m') (now : Instant) (id : TaskId) (r : Request)
      (hid : m'.get? id = none) : Arrivals q m (q.takeIn now id r m').2

/-! ### The task that is sent last -/

namespace Memory

variable {m : Memory} {key : String} {w w' : Instant} {t u : Task}

/-- Of the tasks that may be joined this one is sent last, and no other at the same time. -/
structure Latest (m : Memory) (key : String) (w : Instant) (t : Task) : Prop where
  mem : t ∈ m.joinable key w
  last : ∀ u ∈ m.joinable key w, u ≠ t → u.sendAt < t.sendAt

/-- Of two open tasks for the same recipients the one that was opened later is sent earlier. -/
def Descending (m : Memory) : Prop :=
  m.tasks.Pairwise fun t u => t.isOpen = true → u.isOpen = true →
    t.recipient.groupingKey = u.recipient.groupingKey → t.sendAt < u.sendAt

lemma rel_or_rel_of_pairwise {α : Type} {R : α → α → Prop} {l : List α} {a b : α}
    (h : l.Pairwise R) (ha : a ∈ l) (hb : b ∈ l) (hne : a ≠ b) : R a b ∨ R b a := by
  induction h with
  | nil => cases ha
  | cons hx _ ih =>
    rcases List.mem_cons.1 ha with rfl | ha' <;> rcases List.mem_cons.1 hb with rfl | hb'
    · exact absurd rfl hne
    · exact .inl (hx b hb')
    · exact .inr (hx a ha')
    · exact ih ha' hb'

/-- **The look-up has no choice**: of the tasks that may be joined it finds the one that is sent
last. -/
lemma Descending.latest (hd : m.Descending) (h : m.findPending key w = some t) :
    m.Latest key w t := by
  have hmem : t ∈ m.joinable key w := mem_joinable.2 (mem_of_findPending h)
  refine ⟨hmem, fun u hu hne => ?_⟩
  have hle := (le_of_foldl_later h).1 u hu
  obtain ⟨ht, hto, -, htk⟩ := mem_joinable.1 hmem
  obtain ⟨hu, huo, -, huk⟩ := mem_joinable.1 hu
  have hkey := huk.trans htk.symm
  rcases rel_or_rel_of_pairwise hd hu ht hne with hlt | hlt
  · exact hlt huo hto hkey
  · exact absurd hle (Int.not_le.2 (hlt hto huo hkey.symm))

lemma Latest.unique (h : m.Latest key w t) (h' : m.Latest key w u) : t = u := by
  by_contra hne
  have hlt := h'.last t h.mem hne
  have hlt' := h.last u h'.mem (Ne.symm hne)
  exact absurd hlt (Int.not_lt.2 (Int.le_of_lt hlt'))

lemma Descending.findPending_eq (hd : m.Descending) (h : m.Latest key w t) :
    m.findPending key w = some t := by
  rcases hf : m.findPending key w with _ | u
  · have hmem := h.mem
    rw [findPending_eq_none.1 hf] at hmem
    cases hmem
  · rw [(hd.latest hf).unique h]

lemma Latest.mono (h : m.Latest key w t) (ht : t.sendAt ≤ w') (hw : w' ≤ w) :
    m.Latest key w' t := by
  obtain ⟨hm, ho, -, hk⟩ := mem_joinable.1 h.mem
  refine ⟨mem_joinable.2 ⟨hm, ho, ht, hk⟩, fun u hu hne => h.last u ?_ hne⟩
  obtain ⟨hm, ho, hle, hk⟩ := mem_joinable.1 hu
  exact mem_joinable.2 ⟨hm, ho, Instant.le_trans hle hw, hk⟩

end Memory

/-! ### What becomes of a request -/

section

variable {q : Queue} {m m' : Memory} {now : Instant} {id : TaskId} {r : Request} {w : Instant}
  {t : Task}

/-- What holds of a store that requests alone have filled. -/
structure Orderly (q : Queue) (m : Memory) : Prop where
  bound : m.binding = some (Queue.binding q.config)
  distinct : m.Distinct
  descending : m.Descending

/-- What a request with this window ends with, and the store then. -/
def filed (id : TaskId) (r : Request) (w : Instant) (m : Memory) :
    Except EnqueueError TaskId × Memory :=
  match m.findPending r.mail.recipient.groupingKey w with
  | none => (.ok id, m.add (Intake.fresh r id w))
  | some t => (.ok t.id, if t.carries r.mail then m else m.put (t.joinedBy r.mail))

lemma run_call {α : Type} (c : Store.Call) (f : c.Answer → Work α) :
    (call c >>= f).run (Intake.reply now id) m =
      (f (m.answer c).1).run (Intake.reply now id) (m.answer c).2 := rfl

lemma run_openTask {b : Binding} (hb : m.binding = some b) (hid : m.get? id = none) :
    (openTask r w).run (Intake.reply now id) m = (.ok id, m.add (Intake.fresh r id w)) := by
  have hins : m.answer (.insert (Intake.fresh r id w)) = (.ok (), m.add (Intake.fresh r id w)) := by
    have hnone : m.get? (Intake.fresh r id w).id = none := hid
    simp [Memory.answer, Memory.whenBound, hb, hnone]
  show (call (.insert (Intake.fresh r id w)) >>= _).run (Intake.reply now id) m = _
  rw [run_call, hins]
  rfl

lemma run_concatenate {b : Binding} (hb : m.binding = some b) (hd : m.Distinct) (mail : Mail)
    (rounds : Nat) :
    (concatenate mail w (rounds + 1)).run (Intake.reply now id) m =
      match m.findPending mail.recipient.groupingKey w with
      | none => (.ok none, m)
      | some t => (.ok (some t.id), if t.carries mail then m else m.put (t.joinedBy mail)) := by
  have hfind : m.answer (.find mail.recipient w) =
      (.ok (m.findPending mail.recipient.groupingKey w), m) := by
    simp [Memory.answer, Memory.whenBound, hb]
  rw [concatenate, run_call, hfind]
  rcases hf : m.findPending mail.recipient.groupingKey w with _ | t
  · rfl
  · obtain ⟨hm, ho, -, -⟩ := Memory.mem_of_findPending hf
    cases hc : t.carries mail with
    | true =>
      simp only [show (t.fragments.any fun m => m.equivalent mail) = true from hc, hc, if_true]
      rfl
    | false =>
      have hmut : m.answer (.mutate t.id (appendPatch t mail)) =
          (.ok true, m.put (t.joinedBy mail)) := by
        have hg : (appendPatch t mail).guardHolds t = true := by
          simp [appendPatch, Patch.guardHolds_guarded, Guard.holds, ho]
        have hput := Memory.mutate_of_guardHolds (Memory.get?_of_mem hd hm) hg
        show (Except.ok (m.mutate t.id (appendPatch t mail)).1, _) = _
        rw [hput]
        rfl
      simp only [show (t.fragments.any fun m => m.equivalent mail) = false from hc, hc,
        Bool.false_eq_true, if_false]
      rw [run_call, hmut]
      rfl

lemma takeIn_eq (q : Queue) (now : Instant) (id : TaskId) (r : Request) (m : Memory) :
    (r.mail.hasBody && r.mail.recipient.valid) = true ∧
      q.takeIn now id r m =
        (Intake.carryOut q r (r.sendAt.getD now)).run (Intake.reply now id) m ∨
    (r.mail.hasBody && r.mail.recipient.valid) = false ∧
      ∃ e, q.takeIn now id r m = (.error e, m) := by
  rw [takeIn, ← Intake.work_begin, Intake.begin]
  cases r.mail.hasBody with
  | false => exact .inr ⟨rfl, _, rfl⟩
  | true =>
    cases r.mail.recipient.valid with
    | false => exact .inr ⟨rfl, _, rfl⟩
    | true =>
      refine .inl ⟨rfl, ?_⟩
      rcases r.sendAt with _ | t
      · rfl
      · simp only [Bool.not_true, Bool.false_eq_true, if_false, Intake.work_dated,
          Option.getD_some]

lemma takeIn_refused (hc : q.config.concat.enabled = true) (hw : q.window? now r = none)
    (id : TaskId) (m : Memory) :
    ∃ e, q.takeIn now id r m = (.error e, m) := by
  rcases takeIn_eq q now id r m with ⟨hok, he⟩ | ⟨-, he⟩
  · rw [window?, if_pos hok] at hw
    rw [he, Intake.carryOut, if_pos hc]
    rcases hwe : q.windowEnd (r.sendAt.getD now) with e | w
    · exact ⟨e, rfl⟩
    · rw [hwe] at hw
      cases hw
  · exact he

/-- **What becomes of a request** that is not refused. -/
lemma takeIn_admitted (h : Orderly q m) (hc : q.config.concat.enabled = true)
    (hid : m.get? id = none) (hw : q.window? now r = some w) :
    q.takeIn now id r m = filed id r w m := by
  rcases takeIn_eq q now id r m with ⟨hok, he⟩ | ⟨hno, -⟩
  · rw [window?, if_pos hok] at hw
    rcases hwe : q.windowEnd (r.sendAt.getD now) with e | w'
    · rw [hwe] at hw
      cases hw
    · rw [hwe] at hw
      obtain rfl : w' = w := Option.some.inj hw
      rw [he, Intake.carryOut, if_pos hc, hwe]
      show ((concatenate r.mail w' maxAppendRounds).bind fun o => Intake.conclude r w' o).run
        (Intake.reply now id) m = _
      rw [Program.run_bind, show maxAppendRounds = 7 + 1 from rfl,
        run_concatenate h.bound h.distinct, filed]
      rcases m.findPending r.mail.recipient.groupingKey w' with _ | t
      · exact run_openTask h.bound hid
      · rfl
  · rw [window?, if_neg (by simp [hno])] at hw
    cases hw

/-! ### One request after the other -/

/-- A task as it stands when a request has joined one. -/
def Task.after (joined : Task) (mail : Mail) (u : Task) : Task :=
  if u.id = joined.id then joined.joinedBy mail else u

/-- A task that is joined stays what it is but for its mails, and so do the others. -/
structure Task.Grows (u v : Task) : Prop where
  id : v.id = u.id
  sendAt : v.sendAt = u.sendAt
  key : v.recipient.groupingKey = u.recipient.groupingKey
  isOpen : v.isOpen = u.isOpen
  fragments : u.fragments <+: v.fragments

lemma Task.Grows.refl (u : Task) : u.Grows u := ⟨rfl, rfl, rfl, rfl, List.prefix_refl _⟩

lemma Task.Grows.trans {u v w : Task} (h : u.Grows v) (h' : v.Grows w) : u.Grows w :=
  ⟨h'.id.trans h.id, h'.sendAt.trans h.sendAt, h'.key.trans h.key, h'.isOpen.trans h.isOpen,
    h.fragments.trans h'.fragments⟩

lemma Task.Grows.carries {u v : Task} (h : u.Grows v) {mail : Mail} (hu : u.carries mail = true) :
    v.carries mail = true := by
  obtain ⟨m, hm, he⟩ := List.any_eq_true.1 hu
  exact List.any_eq_true.2 ⟨m, h.fragments.subset hm, he⟩

lemma grows_after (hd : m.Distinct) (ht : t ∈ m.tasks) (mail : Mail) {u : Task}
    (hu : u ∈ m.tasks) : u.Grows (t.after mail u) := by
  unfold Task.after
  split
  · next hid =>
    have hsome := Memory.get?_of_mem hd hu
    rw [hid, Memory.get?_of_mem hd ht] at hsome
    obtain rfl := Option.some.inj hsome
    exact ⟨rfl, rfl, rfl, rfl, List.prefix_append _ _⟩
  · exact .refl u

lemma descending_put (hd : m.Descending) (hdist : m.Distinct) (ht : t ∈ m.tasks) (mail : Mail) :
    (m.put (t.joinedBy mail)).Descending := by
  refine List.pairwise_map.2 (List.Pairwise.imp_of_mem (fun {u v} hu hv h ho ho' hk => ?_) hd)
  have hgu := grows_after hdist ht mail hu
  have hgv := grows_after hdist ht mail hv
  have hlt := h (hgu.isOpen.symm.trans ho) (hgv.isOpen.symm.trans ho')
    (hgu.key.symm.trans (hk.trans hgv.key))
  rw [← hgu.sendAt, ← hgv.sendAt] at hlt
  exact hlt

lemma descending_add (hd : m.Descending)
    (hn : m.joinable t.recipient.groupingKey t.sendAt = []) : (m.add t).Descending := by
  refine List.pairwise_cons.2 ⟨fun u hu _ ho hk => ?_, hd⟩
  by_contra hlt
  have hmem : u ∈ m.joinable t.recipient.groupingKey t.sendAt :=
    Memory.mem_joinable.2 ⟨hu, ho, Int.not_lt.1 hlt, hk.symm⟩
  rw [hn] at hmem
  cases hmem

lemma orderly_filed (h : Orderly q m) (hid : m.get? id = none) : Orderly q (filed id r w m).2 := by
  unfold filed
  rcases hf : m.findPending r.mail.recipient.groupingKey w with _ | t
  · exact ⟨h.bound, Memory.distinct_add h.distinct hid,
      descending_add h.descending (Memory.findPending_eq_none.1 hf)⟩
  · cases hc : t.carries r.mail with
    | true => simpa only [hc, if_true] using h
    | false =>
      simp only [hc, Bool.false_eq_true, if_false]
      exact ⟨h.bound, Memory.distinct_put h.distinct _,
        descending_put h.descending h.distinct (Memory.mem_of_findPending hf).1 _⟩

lemma latest_filed (h : Orderly q m) (id : TaskId) (r : Request) (w : Instant) {key : String}
    {w' : Instant} (hl : m.Latest key w' t) :
    ∃ t', (filed id r w m).2.Latest key w' t' ∧ t.Grows t' := by
  obtain ⟨hmem, hlast⟩ := hl
  obtain ⟨ht, ho, hle, hk⟩ := Memory.mem_joinable.1 hmem
  unfold filed
  rcases hf : m.findPending r.mail.recipient.groupingKey w with _ | j
  · -- the task that is opened is sent before this one
    refine ⟨t, ⟨Memory.mem_joinable.2 ⟨List.mem_cons_of_mem _ ht, ho, hle, hk⟩, ?_⟩, .refl t⟩
    intro u hu hne
    obtain ⟨hu, huo, hule, huk⟩ := Memory.mem_joinable.1 hu
    rcases List.mem_cons.1 hu with rfl | hu
    · by_contra hlt
      have hm : t ∈ m.joinable r.mail.recipient.groupingKey w :=
        Memory.mem_joinable.2 ⟨ht, ho, Int.not_lt.1 hlt, hk.trans huk.symm⟩
      rw [Memory.findPending_eq_none.1 hf] at hm
      cases hm
    · exact hlast u (Memory.mem_joinable.2 ⟨hu, huo, hule, huk⟩) hne
  · cases hc : j.carries r.mail with
    | true => simpa only [hc, if_true] using ⟨t, ⟨hmem, hlast⟩, Task.Grows.refl t⟩
    | false =>
      simp only [hc, Bool.false_eq_true, if_false]
      have hj := (Memory.mem_of_findPending hf).1
      have hg := grows_after h.distinct hj r.mail ht
      refine ⟨j.after r.mail t, ⟨Memory.mem_joinable.2 ⟨List.mem_map_of_mem ht,
        hg.isOpen.trans ho, hg.sendAt ▸ hle, hg.key.trans hk⟩, fun u hu hne => ?_⟩, hg⟩
      obtain ⟨hu, huo, hule, huk⟩ := Memory.mem_joinable.1 hu
      obtain ⟨v, hv, rfl⟩ := List.mem_map.1 hu
      have hgv := grows_after h.distinct hj r.mail hv
      have hlt := hlast v (Memory.mem_joinable.2 ⟨hv, hgv.isOpen.symm.trans huo,
        hgv.sendAt ▸ hule, hgv.key.symm.trans huk⟩) (fun e => hne (e ▸ rfl))
      rw [hg.sendAt]
      exact hgv.sendAt ▸ hlt

/-- A request is refused and leaves the store alone, or has a window. -/
lemma takeIn_cases (h : Orderly q m) (hc : q.config.concat.enabled = true)
    (hid : m.get? id = none) (now : Instant) (r : Request) :
    (q.takeIn now id r m).2 = m ∨ ∃ w, (q.takeIn now id r m).2 = (filed id r w m).2 := by
  rcases hw : q.window? now r with _ | w
  · obtain ⟨e, he⟩ := takeIn_refused hc hw id m
    exact .inl (by rw [he])
  · exact .inr ⟨w, by rw [takeIn_admitted h hc hid hw]⟩

lemma Arrivals.orderly (ha : Arrivals q m m') (hc : q.config.concat.enabled = true)
    (h : Orderly q m) : Orderly q m' := by
  induction ha with
  | refl => exact h
  | snoc _ now id r hid ih =>
    rcases takeIn_cases ih hc hid now r with he | ⟨w, he⟩
    · rw [he]
      exact ih
    · rw [he]
      exact orderly_filed ih hid

lemma Arrivals.latest (ha : Arrivals q m m') (hc : q.config.concat.enabled = true)
    (h : Orderly q m) {key : String} (hl : m.Latest key w t) :
    ∃ t', m'.Latest key w t' ∧ t.Grows t' := by
  induction ha with
  | refl => exact ⟨t, hl, .refl t⟩
  | snoc ha now id r hid ih =>
    obtain ⟨u, hu, hg⟩ := ih
    rcases takeIn_cases (ha.orderly hc h) hc hid now r with he | ⟨w', he⟩
    · rw [he]
      exact ⟨u, hu, hg⟩
    · rw [he]
      obtain ⟨v, hv, hg'⟩ := latest_filed (ha.orderly hc h) id r w' hu
      exact ⟨v, hv, hg.trans hg'⟩

def vacant (q : Queue) : Memory := ⟨[], some (Queue.binding q.config)⟩

lemma orderly_vacant (q : Queue) : Orderly q (vacant q) :=
  ⟨rfl, by simp [Memory.Distinct, vacant], List.Pairwise.nil⟩

/-! ### The same mail again -/

/-- What becomes of a request with a window, in a store that requests alone have filled. -/
structure Repeats (q : Queue) (m : Memory) (now : Instant) (id : TaskId) (r : Request)
    (w : Instant) : Prop where
  /-- If there is a task to join, one of them is sent last, and its identifier is returned. -/
  joins : ∀ u ∈ m.joinable r.mail.recipient.groupingKey w,
    ∃ t, m.Latest r.mail.recipient.groupingKey w t ∧ (q.takeIn now id r m).1 = .ok t.id
  /-- The mail is left out exactly if that task holds its content. What the others hold does not
  count. -/
  leftOut : ∀ t, m.Latest r.mail.recipient.groupingKey w t →
    ((q.takeIn now id r m).2 = m ↔ t.carries r.mail = true)
  /-- Otherwise it is added to that task. -/
  added : ∀ t, m.Latest r.mail.recipient.groupingKey w t → t.carries r.mail = false →
    (q.takeIn now id r m).2 = m.put (t.joinedBy r.mail)
  /-- Where there is no task to join, one is opened at the end of the window. -/
  opened : m.joinable r.mail.recipient.groupingKey w = [] →
    q.takeIn now id r m = (.ok id, m.add (Intake.fresh r id w))
  /-- From then on the same mail is left out in any window that ends neither before its task is sent
  nor after this one. -/
  again : r.mail.Lawful → ∀ i, (q.takeIn now id r m).1 = .ok i →
    ∀ m', Arrivals q (q.takeIn now id r m).2 m' → ∃ t, m'.get? i = some t ∧
      ∀ now' id' r' w', m'.get? id' = none → r'.mail = r.mail → q.window? now' r' = some w' →
        t.sendAt ≤ w' → w' ≤ w → q.takeIn now' id' r' m' = (.ok i, m')

lemma put_joinedBy_ne (hd : m.Distinct) (ht : t ∈ m.tasks) (mail : Mail) :
    m.put (t.joinedBy mail) ≠ m := by
  intro he
  have hsome := Memory.get?_put_of_id (Memory.get?_of_mem hd ht)
    (show (t.joinedBy mail).id = t.id from rfl) t.id
  rw [he, if_pos rfl, Memory.get?_of_mem hd ht] at hsome
  have hlen := congrArg (fun u : Task => u.fragments.length) (Option.some.inj hsome)
  simp [Task.joinedBy] at hlen

lemma carries_of_lawful {mail : Mail} (hl : mail.Lawful) {u : Task} (hm : mail ∈ u.fragments) :
    u.carries mail = true :=
  List.any_eq_true.2 ⟨mail, hm, Mail.equivalent_refl hl⟩

/-- The task that a request ends with is the one that is sent last, and it holds the mail. -/
lemma carried_of_filed (h : Orderly q m) (hid : m.get? id = none) (hl : r.mail.Lawful)
    {i : TaskId} (hi : (filed id r w m).1 = .ok i) :
    ∃ t, (filed id r w m).2.Latest r.mail.recipient.groupingKey w t ∧ t.id = i ∧
      t.carries r.mail = true := by
  have ho := orderly_filed (r := r) (w := w) h hid
  unfold filed at hi ho ⊢
  rcases hf : m.findPending r.mail.recipient.groupingKey w with _ | t
  · simp only [hf] at hi ho
    obtain rfl : id = i := Except.ok.inj hi
    have hmem : Intake.fresh r id w ∈
        (m.add (Intake.fresh r id w)).joinable r.mail.recipient.groupingKey w :=
      Memory.mem_joinable.2 ⟨List.mem_cons_self .., rfl, Instant.le_refl w, rfl⟩
    refine ⟨_, ⟨hmem, fun u hu hne => ?_⟩, rfl, carries_of_lawful hl (List.mem_singleton_self _)⟩
    obtain ⟨hu, huo, hule, huk⟩ := Memory.mem_joinable.1 hu
    rcases List.mem_cons.1 hu with rfl | hu
    · exact absurd rfl hne
    · have hold : u ∈ m.joinable r.mail.recipient.groupingKey w :=
        Memory.mem_joinable.2 ⟨hu, huo, hule, huk⟩
      rw [Memory.findPending_eq_none.1 hf] at hold
      cases hold
  · simp only [hf] at hi
    obtain rfl : t.id = i := Except.ok.inj hi
    have hlatest := h.descending.latest hf
    cases hc : t.carries r.mail with
    | true => exact ⟨t, by simpa only [hc, if_true] using hlatest, rfl, hc⟩
    | false =>
      obtain ⟨u, hu, hg⟩ := latest_filed h id r w hlatest
      simp only [filed, hf, hc, Bool.false_eq_true, if_false] at hu
      have hput := Memory.get?_put_of_id
        (Memory.get?_of_mem h.distinct (Memory.mem_joinable.1 hlatest.mem).1)
        (show (t.joinedBy r.mail).id = t.id from rfl) u.id
      have hmem := (Memory.mem_joinable.1 hu.mem).1
      rw [if_pos hg.id.symm, Memory.get?_of_mem (Memory.distinct_put h.distinct _) hmem] at hput
      obtain rfl := Option.some.inj hput
      refine ⟨t.joinedBy r.mail, ?_, rfl,
        carries_of_lawful hl (List.mem_append_right _ (List.mem_singleton_self _))⟩
      simpa only [hc, Bool.false_eq_true, if_false] using hu

/-- **What becomes of a request** in a store that requests alone have filled. -/
theorem repeats (hc : q.config.concat.enabled = true) (hm : Arrivals q (vacant q) m)
    (hid : m.get? id = none) (hw : q.window? now r = some w) : Repeats q m now id r w := by
  have h := hm.orderly hc (orderly_vacant q)
  have he := takeIn_admitted h hc hid hw
  have hfound : ∀ {t}, m.Latest r.mail.recipient.groupingKey w t → q.takeIn now id r m =
      (.ok t.id, if t.carries r.mail then m else m.put (t.joinedBy r.mail)) := by
    intro t hl
    rw [he, filed, h.descending.findPending_eq hl]
  refine ⟨fun u hu => ?_, fun t hl => ?_, fun t hl hno => ?_, fun hn => ?_,
    fun hlaw i hi m' ha => ?_⟩
  · rcases hf : m.findPending r.mail.recipient.groupingKey w with _ | t
    · rw [Memory.findPending_eq_none.1 hf] at hu
      cases hu
    · have hl := h.descending.latest hf
      exact ⟨t, hl, by rw [hfound hl]⟩
  · rw [hfound hl]
    cases hcar : t.carries r.mail with
    | true => simp
    | false =>
      simpa using put_joinedBy_ne h.distinct (Memory.mem_joinable.1 hl.mem).1 r.mail
  · rw [hfound hl, hno]
    rfl
  · rw [he, filed, Memory.findPending_eq_none.2 hn]
  · rw [he] at hi ha
    obtain ⟨t, hl, rfl, hcar⟩ := carried_of_filed h hid hlaw hi
    have ho := orderly_filed (r := r) (w := w) h hid
    obtain ⟨u, hu, hg⟩ := ha.latest hc ho hl
    have ho' := ha.orderly hc ho
    have hmem := (Memory.mem_joinable.1 hu.mem).1
    refine ⟨u, hg.id ▸ Memory.get?_of_mem ho'.distinct hmem, ?_⟩
    intro now' id' r' w' hid' hmail hw' hle hlew
    have hu' := hu.mono hle hlew
    rw [takeIn_admitted ho' hc hid' hw', filed, hmail, ho'.descending.findPending_eq hu']
    simp [hg.carries hcar, hg.id]

end

/-! ### A mail that is taken in twice -/

namespace Repeats

def tenSeconds : Instant := ⟨10000000000, by decide, by decide⟩

/-- A queue that merges mails for a minute. -/
def merger : Queue := Queue.wire { concat := { enabled := true } } [⟨"smtp", none⟩] none

def postponed (line : String) : Request := { Fleet.note "a@x" line with sendAt := some tenSeconds }

/-- A store with a mail that is to be sent in ten seconds. -/
def before : Memory := (merger.takeIn .epoch (.ofNat 1) (postponed "one") (vacant merger)).2

/-- Another mail, to be sent at once, has opened a task of its own: that of the first is sent after
the end of its window. -/
def overtaken : Memory := (merger.takeIn .epoch (.ofNat 2) (Fleet.note "a@x" "two") before).2

end Repeats

open Repeats in
/-- The second mail is taken in once more, to be sent in ten seconds. A task for the same recipient
that is sent within this window holds it, but it is not the one that is sent last. -/
theorem repeats_overtaken : ∃ w u t, merger.config.concat.enabled = true ∧
    Arrivals merger (vacant merger) overtaken ∧ overtaken.get? (.ofNat 3) = none ∧
    merger.window? .epoch (postponed "two") = some w ∧ u ∈ overtaken.joinable "a@x" w ∧
    u.carries (postponed "two").mail = true ∧ overtaken.Latest "a@x" w t ∧ t.id ≠ u.id ∧
    t.carries (postponed "two").mail = false ∧
    Repeats merger overtaken .epoch (.ofNat 3) (postponed "two") w := by
  have key : ((before.get? (.ofNat 2)).isNone && (overtaken.get? (.ofNat 3)).isNone &&
      (merger.window? .epoch (postponed "two")).any fun w =>
        ((overtaken.joinable "a@x" w).any fun u =>
          u.id == .ofNat 2 && u.carries (postponed "two").mail) &&
        (overtaken.findPending "a@x" w).any fun t =>
          t.id == .ofNat 1 && !t.carries (postponed "two").mail) = true := by decide +kernel
  simp only [Bool.and_eq_true, Option.isNone_iff_eq_none, Option.any_eq_true, List.any_eq_true,
    beq_iff_eq, Bool.not_eq_true'] at key
  obtain ⟨⟨htwo, hthree⟩, w, hw, ⟨u, hu, hid, hcar⟩, t, ht, hid', hno⟩ := key
  have hc : merger.config.concat.enabled = true := rfl
  have ha : Arrivals merger (vacant merger) overtaken :=
    .snoc (.snoc .refl _ _ _ rfl) _ _ _ htwo
  have hl := (ha.orderly hc (orderly_vacant merger)).descending.latest ht
  have hne : t.id ≠ u.id := by
    rw [hid, hid']
    decide
  exact ⟨w, u, t, hc, ha, hthree, hw, hu, hcar, hl, hne, hno, repeats hc ha hthree hw⟩

end MailQueue

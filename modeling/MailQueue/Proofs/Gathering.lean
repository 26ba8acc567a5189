import MailQueue.Proofs.Repeats

/-!
# Mails gathered by their recipients

Requests that a queue takes in one after the other where mails are merged, none of them to be sent
before one that came earlier. The window of a request then ends no earlier than the tasks that wait
are sent, so that each request for the same recipients finds the task that the first one opened.

* `Queue.takeInAll` takes requests in one after the other, from their list;
* `withoutRepeats` leaves out the mails that have the content of an earlier one, and
  `any_withoutRepeats` says that nothing is lost for the comparison with a further mail;
* `Gathers` is the task that the requests for the same recipients come to;
* `Grouped` is what the store knows of the requests so far; `Grouped.takeIn` is the step and
  `Grouped.takeInAll` the run;
* `gathered` is what becomes of the requests.
-/

namespace MailQueue

open Queue

/-- A request on its way: when it is taken in, and with which identifier to hand out. -/
structure Incoming where
  now : Instant
  id : TaskId
  request : Request

namespace Incoming

def mail (a : Incoming) : Mail := a.request.mail

def time (a : Incoming) : Instant := a.request.sendAt.getD a.now

def key (a : Incoming) : String := a.mail.recipient.groupingKey

end Incoming

namespace Queue

/-- Takes requests in one after the other: what each ends with, and the store then. -/
def takeInAll (q : Queue) : List Incoming → Memory → List (Except EnqueueError TaskId) × Memory
  | [], m => ([], m)
  | a :: rest, m =>
    let taken := q.takeIn a.now a.id a.request m
    let others := q.takeInAll rest taken.2
    (taken.1 :: others.1, others.2)

end Queue

/-! ### Mails without repetition -/

/-- The mails that come after those before, without each that has the content of an earlier one. -/
def withoutRepeats (before : List Mail) : List Mail → List Mail
  | [] => []
  | m :: ms =>
    if before.any fun n => n.equivalent m then withoutRepeats (before ++ [m]) ms
    else m :: withoutRepeats (before ++ [m]) ms

section

variable {before ms : List Mail} {mail : Mail}

lemma withoutRepeats_concat (before ms : List Mail) (mail : Mail) :
    withoutRepeats before (ms ++ [mail]) = withoutRepeats before ms ++
      if (before ++ ms).any fun n => n.equivalent mail then [] else [mail] := by
  induction ms generalizing before with
  | nil => simp [withoutRepeats]
  | cons m ms ih =>
    rw [List.cons_append, withoutRepeats, withoutRepeats, ih, List.append_assoc,
      List.singleton_append]
    split <;> rfl

lemma withoutRepeats_subset (before ms : List Mail) : withoutRepeats before ms ⊆ ms := by
  induction ms generalizing before with
  | nil => exact List.Subset.refl _
  | cons m ms ih =>
    rw [withoutRepeats]
    split
    · exact List.subset_cons_of_subset m (ih _)
    · exact List.cons_subset_cons m (ih _)

/-- **What is left out is not missed**: a further mail has the content of one that is left if and
only if it has that of any. -/
lemma any_withoutRepeats (hms : ∀ m ∈ ms, m.Lawful) (hmail : mail.Lawful) :
    ((withoutRepeats [] ms).any fun n => n.equivalent mail) =
      ms.any fun n => n.equivalent mail := by
  -- each mail has the content of one that is left
  have hleft : ∀ m ∈ ms, ∃ n ∈ withoutRepeats [] ms, n.equivalent m = true := by
    clear hmail
    induction ms using List.reverseRecOn with
    | nil => simp
    | append_singleton ms last ih =>
      have hlast : last.Lawful := hms last (by simp)
      have ih := ih fun m hm => hms m (by simp [hm])
      rw [withoutRepeats_concat, List.nil_append]
      intro m hm
      rcases List.mem_append.1 hm with hm | hm
      · obtain ⟨n, hn, he⟩ := ih m hm
        exact ⟨n, List.mem_append_left _ hn, he⟩
      · obtain rfl := List.mem_singleton.1 hm
        cases hany : ms.any fun n => n.equivalent m with
        | false => exact ⟨m, by simp, Mail.equivalent_refl hlast⟩
        | true =>
          obtain ⟨n, hn, he⟩ := List.any_eq_true.1 hany
          obtain ⟨k, hk, hkn⟩ := ih n hn
          have hkl := hms k (List.mem_append_left _ (withoutRepeats_subset [] ms hk))
          exact ⟨k, List.mem_append_left _ hk,
            Mail.equivalent_trans hkl (hms n (by simp [hn])) hlast hkn he⟩
  rw [Bool.eq_iff_iff, List.any_eq_true, List.any_eq_true]
  constructor
  · rintro ⟨n, hn, he⟩
    exact ⟨n, withoutRepeats_subset [] ms hn, he⟩
  · rintro ⟨n, hn, he⟩
    obtain ⟨k, hk, hkn⟩ := hleft n hn
    exact ⟨k, hk, Mail.equivalent_trans (hms k (withoutRepeats_subset [] ms hk)) (hms n hn) hmail
      hkn he⟩

end

/-! ### The task of some recipients -/

/-- The task with a further mail, unless it holds its content already. -/
def Task.holding (t : Task) (mail : Mail) : Task :=
  if t.carries mail then t else t.joinedBy mail

lemma Task.id_holding (t : Task) (mail : Mail) : (t.holding mail).id = t.id := by
  unfold Task.holding
  split <;> rfl

lemma Task.recipient_holding (t : Task) (mail : Mail) :
    (t.holding mail).recipient = t.recipient := by
  unfold Task.holding
  split <;> rfl

/-- The task that a request opens and others join. -/
structure Gathers (q : Queue) (t : Task) (first : Incoming) (others : List Incoming) : Prop where
  id : t.id = first.id
  recipient : t.recipient = first.mail.recipient
  template : t.template = first.request.template
  concatSubject : t.concatSubject = first.request.concatSubject
  attempts : t.attempts = 0
  transport : t.transport = 0
  isOpen : t.isOpen = true
  /-- It is sent when the window of the first request ends. -/
  sendAt : first.time.add? ((q.config.concat.delayMs.toNat * nsPerMs : Nat) : Int) = some t.sendAt
  /-- It holds the mails in their order, each content once. -/
  fragments : t.fragments = withoutRepeats [] ((first :: others).map Incoming.mail)

def forKey (l : List Incoming) (key : String) : List Incoming := l.filter fun a => a.key == key

/-- What the store knows of the requests that it has taken in so far. -/
structure Grouped (q : Queue) (l : List Incoming) (m : Memory) : Prop where
  orderly : Orderly q m
  /-- No two tasks are for the same recipients. -/
  single : (m.tasks.map fun t => t.recipient.groupingKey).Nodup
  /-- There is a task for the recipients of each request. -/
  covers : ∀ a ∈ l, ∃ t ∈ m.tasks, t.recipient.groupingKey = a.key
  /-- Each task is that of the requests for its recipients. -/
  gathers : ∀ t ∈ m.tasks, ∃ first others,
    forKey l t.recipient.groupingKey = first :: others ∧ Gathers q t first others

section

variable {q : Queue} {l rest : List Incoming} {m : Memory} {a : Incoming} {w : Instant} {t u : Task}

lemma mem_forKey {key : String} : a ∈ forKey l key ↔ a ∈ l ∧ a.key = key := by
  simp [forKey]

lemma forKey_concat_of_ne {key : String} (h : a.key ≠ key) :
    forKey (l ++ [a]) key = forKey l key := by
  simp [forKey, h]

lemma forKey_concat_self (l : List Incoming) (a : Incoming) :
    forKey (l ++ [a]) a.key = forKey l a.key ++ [a] := by
  simp [forKey]

lemma time_of_window (h : q.window? a.now a.request = some w) :
    a.time.add? ((q.config.concat.delayMs.toNat * nsPerMs : Nat) : Int) = some w := by
  unfold window? at h
  split at h
  · rcases hw : q.windowEnd (a.request.sendAt.getD a.now) with e | w'
    · rw [hw] at h
      cases h
    · rw [hw] at h
      obtain rfl : w' = w := Option.some.inj h
      exact Intake.windowEnd_eq_ok hw
  · cases h

lemma Grouped.eq_of_key (h : Grouped q l m) (ht : t ∈ m.tasks) (hu : u ∈ m.tasks)
    (hk : t.recipient.groupingKey = u.recipient.groupingKey) : t = u :=
  List.inj_on_of_nodup_map h.single ht hu hk

lemma Grouped.fresh (h : Grouped q l m) (ha : ∀ b ∈ l, b.id ≠ a.id) : m.get? a.id = none := by
  rw [Option.eq_none_iff_forall_ne_some]
  intro t ht
  obtain ⟨b, bs, hbs, hg⟩ := h.gathers t (List.mem_of_find?_eq_some ht)
  have hb : b ∈ forKey l t.recipient.groupingKey := by
    rw [hbs]
    exact List.mem_cons_self ..
  exact ha b (mem_forKey.1 hb).1 (hg.id.symm.trans (Memory.id_of_get? ht))

lemma Grouped.within (h : Grouped q l m) (hw : q.window? a.now a.request = some w)
    (ha : ∀ b ∈ l, b.time ≤ a.time) (ht : t ∈ m.tasks) : t.sendAt ≤ w := by
  obtain ⟨b, bs, hbs, hg⟩ := h.gathers t ht
  have hb : b ∈ forKey l t.recipient.groupingKey := by
    rw [hbs]
    exact List.mem_cons_self ..
  have hle : b.time.ns ≤ a.time.ns := ha b (mem_forKey.1 hb).1
  have hbt := Instant.add?_eq_some_iff.1 hg.sendAt
  have haw := Instant.add?_eq_some_iff.1 (time_of_window hw)
  show t.sendAt.ns ≤ w.ns
  omega

lemma Grouped.absent (h : Grouped q l m) (hw : q.window? a.now a.request = some w)
    (ha : ∀ b ∈ l, b.time ≤ a.time) (hn : m.findPending a.key w = none) (ht : t ∈ m.tasks) :
    t.recipient.groupingKey ≠ a.key := by
  intro hk
  obtain ⟨b, bs, -, hg⟩ := h.gathers t ht
  have hmem : t ∈ m.joinable a.key w :=
    Memory.mem_joinable.2 ⟨ht, hg.isOpen, h.within hw ha ht, hk⟩
  rw [Memory.findPending_eq_none.1 hn] at hmem
  cases hmem

lemma gathers_fresh (hw : q.window? a.now a.request = some w) :
    Gathers q (Intake.fresh a.request a.id w) a [] where
  id := rfl
  recipient := rfl
  template := rfl
  concatSubject := rfl
  attempts := rfl
  transport := rfl
  isOpen := rfl
  sendAt := time_of_window hw
  fragments := rfl

lemma Gathers.joined {first : Incoming} {others : List Incoming} (hg : Gathers q t first others)
    (hl : ∀ b ∈ first :: others, b.mail.Lawful) (ha : a.mail.Lawful) :
    Gathers q (t.holding a.mail) first (others ++ [a]) := by
  have hall : ∀ n ∈ (first :: others).map Incoming.mail, n.Lawful := by
    intro n hn
    obtain ⟨b, hb, rfl⟩ := List.mem_map.1 hn
    exact hl b hb
  have hmails : withoutRepeats [] ((first :: (others ++ [a])).map Incoming.mail) =
      t.fragments ++ if t.carries a.mail then [] else [a.mail] := by
    have hcar : t.carries a.mail =
        ((first :: others).map Incoming.mail).any fun n => n.equivalent a.mail := by
      rw [Task.carries, hg.fragments, any_withoutRepeats hall ha]
    rw [← List.cons_append, List.map_append, List.map_singleton, withoutRepeats_concat,
      List.nil_append, ← hcar, ← hg.fragments]
  unfold Task.holding
  split
  · next hc =>
    rw [if_pos hc, List.append_nil] at hmails
    exact { hg with fragments := hmails.symm }
  · next hc =>
    rw [if_neg hc] at hmails
    exact ⟨hg.id, hg.recipient, hg.template, hg.concatSubject, hg.attempts, hg.transport, hg.isOpen,
      hg.sendAt, hmails.symm⟩

/-- The identifier of the task for some recipients is that of the first request. -/
lemma Grouped.id_eq (h : Grouped q l m) (ht : t ∈ m.tasks) :
    (forKey l t.recipient.groupingKey).head?.map Incoming.id = some t.id := by
  obtain ⟨first, others, hf, hg⟩ := h.gathers t ht
  rw [hf, List.head?_cons, Option.map_some, hg.id]

/-! ### One request after the other -/

lemma filed_of_absent {id : TaskId} {r : Request}
    (h : m.findPending r.mail.recipient.groupingKey w = none) :
    filed id r w m = (.ok id, m.add (Intake.fresh r id w)) := by
  rw [filed, h]

lemma filed_of_found {id : TaskId} {r : Request} (hd : m.Distinct)
    (h : m.findPending r.mail.recipient.groupingKey w = some t) :
    filed id r w m = (.ok t.id, m.put (t.holding r.mail)) := by
  have ht := Memory.get?_of_mem hd (Memory.mem_of_findPending h).1
  simp only [filed, h, Task.holding]
  split
  · rw [Memory.put_of_get? hd ht]
  · rfl

lemma Grouped.opened (h : Grouped q l m) (ho : Orderly q (m.add (Intake.fresh a.request a.id w)))
    (hw : q.window? a.now a.request = some w)
    (hn : ∀ t ∈ m.tasks, t.recipient.groupingKey ≠ a.key) :
    Grouped q (l ++ [a]) (m.add (Intake.fresh a.request a.id w)) := by
  have hnone : forKey l a.key = [] := by
    rw [forKey, List.filter_eq_nil_iff]
    intro b hb hk
    obtain ⟨t, ht, htk⟩ := h.covers b hb
    exact hn t ht (htk.trans (beq_iff_eq.1 hk))
  refine ⟨ho, ?_, fun b hb => ?_, fun t ht => ?_⟩
  · refine List.nodup_cons.2 ⟨fun hmem => ?_, h.single⟩
    obtain ⟨t, ht, hk⟩ := List.mem_map.1 hmem
    exact hn t ht hk
  · rcases List.mem_append.1 hb with hb | hb
    · obtain ⟨t, ht, hk⟩ := h.covers b hb
      exact ⟨t, List.mem_cons_of_mem _ ht, hk⟩
    · obtain rfl := List.mem_singleton.1 hb
      exact ⟨_, List.mem_cons_self .., rfl⟩
  · rcases List.mem_cons.1 ht with rfl | ht
    · refine ⟨a, [], ?_, gathers_fresh hw⟩
      show forKey (l ++ [a]) a.key = [a]
      rw [forKey_concat_self, hnone, List.nil_append]
    · obtain ⟨first, others, hf, hg⟩ := h.gathers t ht
      exact ⟨first, others, by rw [forKey_concat_of_ne (hn t ht).symm, hf], hg⟩

/-- The task that a further request finds holds its mail from then on. -/
lemma Grouped.joined (h : Grouped q l m) (ho : Orderly q (m.put (t.holding a.mail)))
    (ht : t ∈ m.tasks) (hk : t.recipient.groupingKey = a.key) (hl : ∀ b ∈ l, b.mail.Lawful)
    (ha : a.mail.Lawful) : Grouped q (l ++ [a]) (m.put (t.holding a.mail)) := by
  have hid := t.id_holding a.mail
  have hkey : ∀ u ∈ m.tasks, (if u.id = (t.holding a.mail).id then t.holding a.mail
      else u).recipient.groupingKey = u.recipient.groupingKey := by
    intro u hu
    split
    · next he =>
      rw [t.recipient_holding, List.inj_on_of_nodup_map h.orderly.distinct hu ht (he.trans hid)]
    · rfl
  have hmem : ∀ u ∈ m.tasks, (if u.id = (t.holding a.mail).id then t.holding a.mail else u) ∈
      (m.put (t.holding a.mail)).tasks := fun u hu => List.mem_map_of_mem hu
  refine ⟨ho, ?_, fun b hb => ?_, fun v hv => ?_⟩
  · have hmap : (m.put (t.holding a.mail)).tasks.map (fun t => t.recipient.groupingKey) =
        m.tasks.map fun t => t.recipient.groupingKey := by
      rw [Memory.put, List.map_map]
      exact List.map_congr_left hkey
    rw [hmap]
    exact h.single
  · rcases List.mem_append.1 hb with hb | hb
    · obtain ⟨u, hu, huk⟩ := h.covers b hb
      exact ⟨_, hmem u hu, (hkey u hu).trans huk⟩
    · obtain rfl := List.mem_singleton.1 hb
      exact ⟨_, hmem t ht, (hkey t ht).trans hk⟩
  · obtain ⟨u, hu, rfl⟩ := List.mem_map.1 hv
    obtain ⟨first, others, hf, hg⟩ := h.gathers u hu
    rw [hkey u hu]
    by_cases he : u = t
    · subst he
      refine ⟨first, others ++ [a], ?_, ?_⟩
      · rw [hk, forKey_concat_self, ← hk, hf, List.cons_append]
      · rw [if_pos hid.symm]
        refine hg.joined (fun b hb => hl b ?_) ha
        rw [← hf] at hb
        exact (mem_forKey.1 hb).1
    · have hne : a.key ≠ u.recipient.groupingKey :=
        fun hak => he (h.eq_of_key hu ht (hak.symm.trans hk.symm))
      have hne' : u.id ≠ (t.holding a.mail).id :=
        fun e => he (List.inj_on_of_nodup_map h.orderly.distinct hu ht (e.trans hid))
      rw [if_neg hne', forKey_concat_of_ne hne]
      exact ⟨first, others, hf, hg⟩

/-- **One request**: the store keeps one task for the same recipients, and the request ends with
that for its own. -/
lemma Grouped.takeIn (h : Grouped q l m) (hc : q.config.concat.enabled = true)
    (hw : q.window? a.now a.request = some w) (hid : ∀ b ∈ l, b.id ≠ a.id)
    (htime : ∀ b ∈ l, b.time ≤ a.time) (hl : ∀ b ∈ l, b.mail.Lawful) (ha : a.mail.Lawful) :
    Grouped q (l ++ [a]) (q.takeIn a.now a.id a.request m).2 ∧
      ∃ t ∈ (q.takeIn a.now a.id a.request m).2.tasks, t.recipient.groupingKey = a.key ∧
        (q.takeIn a.now a.id a.request m).1 = .ok t.id := by
  have hfresh := h.fresh hid
  have ho := orderly_filed (r := a.request) (w := w) h.orderly hfresh
  rw [takeIn_admitted h.orderly hc hfresh hw]
  rcases hf : m.findPending a.key w with _ | t
  · rw [filed_of_absent hf] at ho ⊢
    exact ⟨h.opened ho hw fun t ht => h.absent hw htime hf ht, _, List.mem_cons_self .., rfl, rfl⟩
  · obtain ⟨ht, -, -, hk⟩ := Memory.mem_of_findPending hf
    rw [filed_of_found h.orderly.distinct hf] at ho ⊢
    have hmem : t.holding a.mail ∈ (m.put (t.holding a.mail)).tasks :=
      List.mem_map.2 ⟨t, ht, if_pos (t.id_holding a.mail).symm⟩
    refine ⟨h.joined ho ht hk hl ha, _, hmem, ?_, ?_⟩
    · rw [t.recipient_holding]
      exact hk
    · rw [t.id_holding]

/-- **All requests**: at the end each has been answered with the task for its recipients. -/
lemma Grouped.takeInAll (h : Grouped q l m) (hc : q.config.concat.enabled = true)
    (hw : ∀ a ∈ rest, (q.window? a.now a.request).isSome)
    (hid : ((l ++ rest).map Incoming.id).Nodup)
    (htime : (l ++ rest).Pairwise fun a b => a.time ≤ b.time)
    (hl : ∀ a ∈ l ++ rest, a.mail.Lawful) :
    Grouped q (l ++ rest) (q.takeInAll rest m).2 ∧
      List.Forall₂ (fun a r => ∃ t ∈ (q.takeInAll rest m).2.tasks,
        t.recipient.groupingKey = a.key ∧ r = .ok t.id) rest (q.takeInAll rest m).1 := by
  induction rest generalizing l m with
  | nil =>
    rw [List.append_nil]
    exact ⟨h, .nil⟩
  | cons a rest ih =>
    obtain ⟨w, hwa⟩ := Option.isSome_iff_exists.1 (hw a (by simp))
    have hbefore : ∀ b ∈ l, b.id ≠ a.id := by
      rw [List.map_append, List.map_cons] at hid
      exact fun b hb he =>
        (List.nodup_append.1 hid).2.2 _ (List.mem_map_of_mem hb) _ (List.mem_cons_self ..) he
    have hearlier : ∀ b ∈ l, b.time ≤ a.time := fun b hb =>
      (List.pairwise_append.1 htime).2.2 b hb a (List.mem_cons_self ..)
    obtain ⟨hg, t, ht, hk, hr⟩ := h.takeIn hc hwa hbefore hearlier
      (fun b hb => hl b (by simp [hb])) (hl a (by simp))
    rw [← List.singleton_append, ← List.append_assoc] at hid htime hl ⊢
    obtain ⟨hg', hrest⟩ := ih hg (fun b hb => hw b (by simp [hb])) hid htime hl
    refine ⟨hg', .cons ?_ hrest⟩
    -- the task that the request ended with is, under its identifier, still there at the end
    obtain ⟨u, hu, huk⟩ := hg'.covers a (by simp)
    have hids := hg'.id_eq hu
    have hida := hg.id_eq ht
    have hne : forKey (l ++ [a]) a.key ≠ [] :=
      List.ne_nil_of_mem (mem_forKey.2 ⟨by simp, rfl⟩)
    rw [huk, show forKey (l ++ [a] ++ rest) a.key =
      forKey (l ++ [a]) a.key ++ forKey rest a.key from List.filter_append ..,
      List.head?_append_of_ne_nil _ hne, ← hk, hida] at hids
    exact ⟨u, hu, huk, by rw [hr, Option.some.inj hids]⟩

/-! ### What becomes of the requests -/

/-- What requests end with, and the store that was empty before them. -/
structure Gathered (q : Queue) (l : List Incoming) (results : List (Except EnqueueError TaskId))
    (m : Memory) : Prop where
  /-- For the recipients of each request there is one task, and no other task is there. -/
  single : (m.tasks.map fun t => t.recipient.groupingKey).Nodup
  keys : ∀ key, (∃ t ∈ m.tasks, t.recipient.groupingKey = key) ↔ ∃ a ∈ l, a.key = key
  /-- It was opened by the first of these requests and holds the mails of all of them. -/
  tasks : ∀ t ∈ m.tasks, ∃ first others,
    forKey l t.recipient.groupingKey = first :: others ∧ Gathers q t first others
  /-- Each request was answered with the task for its recipients. -/
  answers : List.Forall₂ (fun a r => ∃ t ∈ m.tasks,
    t.recipient.groupingKey = a.key ∧ r = .ok t.id) l results

lemma grouped_vacant (q : Queue) : Grouped q [] (vacant q) :=
  ⟨orderly_vacant q, List.nodup_nil, fun _ h => absurd h List.not_mem_nil,
    fun _ h => absurd h List.not_mem_nil⟩

/-- **What becomes of requests** that are taken in one after the other, in the order of their
times. -/
theorem gathered (hc : q.config.concat.enabled = true)
    (hw : ∀ a ∈ l, (q.window? a.now a.request).isSome) (hid : (l.map Incoming.id).Nodup)
    (htime : l.Pairwise fun a b => a.time ≤ b.time) (hl : ∀ a ∈ l, a.mail.Lawful) :
    Gathered q l (q.takeInAll l (vacant q)).1 (q.takeInAll l (vacant q)).2 := by
  obtain ⟨hg, hanswers⟩ := (grouped_vacant q).takeInAll hc hw hid htime hl
  refine ⟨hg.single, fun key => ⟨?_, ?_⟩, hg.gathers, hanswers⟩
  · rintro ⟨t, ht, rfl⟩
    obtain ⟨first, others, hf, -⟩ := hg.gathers t ht
    have hmem : first ∈ forKey l t.recipient.groupingKey := by
      rw [← List.nil_append l, hf]
      exact List.mem_cons_self ..
    exact ⟨first, mem_forKey.1 hmem⟩
  · rintro ⟨a, ha, rfl⟩
    exact hg.covers a ha

end

/-! ### Five requests -/

namespace Gathered

open Repeats in
/-- Two recipients by turns; the third mail has the content of the first. -/
def five : List Incoming :=
  [⟨.epoch, .ofNat 1, Fleet.note "a@x" "one"⟩, ⟨.epoch, .ofNat 2, Fleet.note "b@x" "one"⟩,
    ⟨.epoch, .ofNat 3, postponed "one"⟩, ⟨.epoch, .ofNat 4, postponed "two"⟩,
    ⟨tenSeconds, .ofNat 5, { Fleet.note "b@x" "three" with sendAt := none }⟩]

end Gathered

open Repeats Gathered in
/-- The third mail is left out, and each of the other mails after the first two joins the task of
one of these. -/
theorem gathered_five : merger.config.concat.enabled = true ∧
    (∀ a ∈ five, (merger.window? a.now a.request).isSome) ∧ (five.map Incoming.id).Nodup ∧
    (five.Pairwise fun a b => a.time ≤ b.time) ∧ (∀ a ∈ five, a.mail.Lawful) ∧
    ((merger.takeInAll five (vacant merger)).2.tasks.map fun t => t.fragments.length) = [2, 2] ∧
    Gathered merger five (merger.takeInAll five (vacant merger)).1
      (merger.takeInAll five (vacant merger)).2 := by
  have hw : ∀ a ∈ five, (merger.window? a.now a.request).isSome := by decide
  have hid : (five.map Incoming.id).Nodup := by decide
  have htime : five.Pairwise fun a b => a.time ≤ b.time := by decide
  have hl : ∀ a ∈ five, a.mail.Lawful := by
    intro a ha
    fin_cases ha <;> trivial
  exact ⟨rfl, hw, hid, htime, hl, by decide +kernel, gathered rfl hw hid htime hl⟩

end MailQueue

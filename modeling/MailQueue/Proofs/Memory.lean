import MailQueue.Store.Memory
import Mathlib.Data.List.Basic

/-!
# What a call does to a store in memory

The view of a store under one identifier, before and after a call.

* `Store.Call.effect` is what an answered call makes of the task under an identifier;
* `Memory.get?_answer`: the store goes by it, whatever the call;
* `mutate_eq_true`, `insert_eq_ok` and `cancel_eq_true` say what a good answer tells of the store
  that gave it, `mem_of_due` and `mem_of_find` what is listed and found;
* `Memory.allows_iff`: the answers that may be given are those of the store with its tasks in any
  order.
-/

namespace MailQueue

/-- What a call with this answer makes of the task under an identifier. -/
def Store.Call.effect (keepHistory : Bool) (id : TaskId) :
    (c : Store.Call) → c.Answer → Option Task → Option Task
  | .insert task, .ok (), o => if task.id = id then some task else o
  | .mutate i p, .ok true, o => if i = id then o.map p.apply else o
  | .delete i, .ok _, o => if i = id then none else o
  | .cancel i, .ok true, o =>
    if i = id then if keepHistory then o.map ({ · with cancelled := true }) else none else o
  | _, _, o => o

namespace Memory

variable {m : Memory} {b : Binding} {id : TaskId} {t : Task}

def Distinct (m : Memory) : Prop := (m.tasks.map Task.id).Nodup

theorem id_of_get? (h : m.get? id = some t) : t.id = id := by
  simpa using List.find?_some h

theorem get?_of_mem (hm : m.Distinct) (h : t ∈ m.tasks) : m.get? t.id = some t := by
  obtain ⟨tasks, b⟩ := m
  simp only [Distinct, get?] at *
  induction tasks with
  | nil => simp at h
  | cons u tasks ih =>
    rw [List.map_cons, List.nodup_cons] at hm
    rcases List.mem_cons.1 h with rfl | h
    · simp
    · have hne : ¬ u.id = t.id := fun e => hm.1 (List.mem_map.2 ⟨t, h, e.symm⟩)
      rw [List.find?_cons_of_neg (by simpa using hne)]
      exact ih hm.2 h

theorem erase_of_get?_eq_none (hm : m.Distinct) (hid : m.get? id = none) : m.erase id = m := by
  have htasks : m.tasks.filter (fun t => t.id != id) = m.tasks := by
    refine List.filter_eq_self.2 fun t ht => bne_iff_ne.2 ?_
    rintro rfl
    rw [get?_of_mem hm ht] at hid
    cases hid
  rw [erase, htasks]

theorem put_of_get? (hm : m.Distinct) {t : Task} (ht : m.get? id = some t) : m.put t = m := by
  have htasks : m.tasks.map (fun u => if u.id = t.id then t else u) = m.tasks := by
    conv_rhs => rw [← List.map_id m.tasks]
    refine List.map_congr_left fun u hu => ?_
    split
    · next he =>
      have hu := get?_of_mem hm hu
      rw [he, id_of_get? ht, ht] at hu
      exact Option.some.inj hu
    · rfl
  rw [put, htasks]

/-! ### Good answers -/

theorem mutate_eq_true {p : Patch} (h : (m.mutate id p).1 = true) :
    ∃ u, m.get? id = some u ∧ p.guardHolds u = true := by
  rcases hu : m.get? id with _ | u
  · simp [mutate, hu] at h
  · refine ⟨u, rfl, ?_⟩
    by_contra hg
    simp [mutate, hu, Patch.applied?, hg] at h

theorem mutate_of_guardHolds {p : Patch} {u : Task} (h : m.get? id = some u)
    (hg : p.guardHolds u = true) : m.mutate id p = (true, m.put (p.apply u)) := by
  simp [mutate, h, Patch.applied?, hg]

theorem mutate_eq_false {p : Patch} (h : (m.mutate id p).1 = false) : (m.mutate id p).2 = m := by
  unfold mutate at h ⊢
  split
  · next hu => rw [hu] at h; cases h
  · rfl

theorem mutate_of_not {p : Patch} (hno : ∀ t, m.get? id = some t → ¬ p.guardHolds t = true) :
    m.mutate id p = (false, m) := by
  have hfalse : (m.mutate id p).1 = false := by
    rw [Bool.eq_false_iff]
    intro htrue
    obtain ⟨t, ht, hg⟩ := mutate_eq_true htrue
    exact hno t ht hg
  exact Prod.ext hfalse (mutate_eq_false hfalse)

theorem insert_eq_ok (h : (m.answer (.insert t)).1 = .ok ()) : m.get? t.id = none := by
  rcases hb : m.binding with _ | b
  · simp [answer, whenBound, hb] at h
  · rcases hg : m.get? t.id with _ | u
    · rfl
    · simp [answer, whenBound, hb, hg] at h

theorem cancel_eq_true (h : (m.cancel b id).1 = true) :
    ∃ u, m.get? id = some u ∧ u.isOpen = true := by
  unfold cancel at h
  split at h
  · cases h
  · next u hu =>
    split at h
    · next ho => exact ⟨u, hu, ho⟩
    · cases h

theorem cancel_eq_false (h : (m.cancel b id).1 = false) : (m.cancel b id).2 = m := by
  unfold cancel at h ⊢
  split at h
  · rfl
  · split at h
    · cases h
    · next ho => simp [ho]

theorem cancel_of_not (hno : ∀ t, m.get? id = some t → ¬ t.isOpen = true) :
    m.cancel b id = (false, m) := by
  unfold cancel
  split
  · rfl
  · next t ht => rw [if_neg (hno t ht)]

theorem mem_dueTasks {now : Instant} :
    t ∈ m.dueTasks b now ↔ t ∈ m.tasks ∧ t.isDue now b.maxAttempts = true := by
  rw [dueTasks, List.mem_mergeSort, List.mem_filter]

/-! ### What may be joined -/

section

variable {key : String} {w : Instant}

theorem foldl_later_eq {l : List Task} {o : Option Task} {u : Task}
    (h : l.foldl later o = some u) : u ∈ l ∨ o = some u := by
  induction l generalizing o with
  | nil => exact .inr h
  | cons v l ih =>
    rcases ih h with h | h
    · exact .inl (List.mem_cons_of_mem _ h)
    · cases o with
      | none =>
        obtain rfl := Option.some.inj h
        exact .inl (List.mem_cons_self ..)
      | some w =>
        simp only [later] at h
        split at h <;> obtain rfl := Option.some.inj h
        · exact .inl (List.mem_cons_self ..)
        · exact .inr rfl

theorem mem_joinable : t ∈ m.joinable key w ↔
    t ∈ m.tasks ∧ t.isOpen = true ∧ t.sendAt ≤ w ∧ t.recipient.groupingKey = key := by
  simp [joinable, and_assoc]

theorem mem_of_findPending (h : m.findPending key w = some t) :
    t ∈ m.tasks ∧ t.isOpen = true ∧ t.sendAt ≤ w ∧ t.recipient.groupingKey = key := by
  rcases foldl_later_eq h with h | h
  · exact mem_joinable.1 h
  · cases h

theorem le_of_foldl_later {l : List Task} {o : Option Task} (h : l.foldl later o = some t) :
    (∀ u ∈ l, u.sendAt ≤ t.sendAt) ∧ ∀ u, o = some u → u.sendAt ≤ t.sendAt := by
  induction l generalizing o with
  | nil =>
    refine ⟨by simp, fun u hu => ?_⟩
    obtain rfl : t = u := Option.some.inj (h.symm.trans hu)
    exact Instant.le_refl _
  | cons v l ih =>
    obtain ⟨hl, ho⟩ := ih h
    -- whichever of the two is carried on is no earlier than either
    have hv : v.sendAt ≤ t.sendAt ∧ ∀ u, o = some u → u.sendAt ≤ t.sendAt := by
      rcases o with _ | u
      · exact ⟨ho v rfl, by simp⟩
      · by_cases hlt : u.sendAt < v.sendAt
        · have hv := ho v (if_pos hlt)
          refine ⟨hv, fun u' hu => ?_⟩
          obtain rfl := Option.some.inj hu
          exact Instant.le_trans (Int.le_of_lt hlt) hv
        · have hu := ho u (if_neg hlt)
          refine ⟨Instant.le_trans (Int.not_lt.1 hlt) hu, fun u' hu' => ?_⟩
          obtain rfl := Option.some.inj hu'
          exact hu
    refine ⟨fun u hu => ?_, hv.2⟩
    rcases List.mem_cons.1 hu with rfl | hu
    · exact hv.1
    · exact hl u hu

theorem foldl_later_of_le {l : List Task} (h : ∀ u ∈ l, u.sendAt ≤ t.sendAt) :
    l.foldl later (some t) = some t := by
  induction l with
  | nil => rfl
  | cons u l ih =>
    have hu : ¬ t.sendAt < u.sendAt := Int.not_lt.2 (h u (List.mem_cons_self ..))
    rw [List.foldl_cons, later, if_neg hu]
    exact ih fun v hv => h v (List.mem_cons_of_mem _ hv)

theorem foldl_later_isSome {l : List Task} {o : Option Task} (h : o.isSome = true ∨ l ≠ []) :
    (l.foldl later o).isSome = true := by
  induction l generalizing o with
  | nil => exact h.resolve_right (by simp)
  | cons v l ih =>
    refine ih (.inl ?_)
    cases o with
    | none => rfl
    | some u => simp only [later]; split <;> rfl

theorem findPending_eq_none : m.findPending key w = none ↔ m.joinable key w = [] := by
  constructor
  · intro h
    by_contra hne
    have hs := foldl_later_isSome (o := none) (.inr hne)
    rw [show (m.joinable key w).foldl later none = none from h] at hs
    cases hs
  · intro h
    show (m.joinable key w).foldl later none = none
    rw [h]
    rfl

theorem finds_of_findPending (h : m.findPending key w = some t) : m.Finds key w t :=
  ⟨mem_joinable.2 (mem_of_findPending h), (le_of_foldl_later h).1⟩

end

/-! ### What may be answered -/

section

variable {m' : Memory} {now before : Instant} {r : Recipient} {key : String} {c : Store.Call}
  {a : c.Answer}

/-- Of any two times one is no later than the other, and so they can be sorted by. -/
theorem pairwise_mergeSort_sendAt (l : List Task) :
    (l.mergeSort fun s t => decide (s.sendAt ≤ t.sendAt)).Pairwise
      fun s t => s.sendAt ≤ t.sendAt := by
  have htrans : ∀ s t u : Task, decide (s.sendAt ≤ t.sendAt) = true →
      decide (t.sendAt ≤ u.sendAt) = true → decide (s.sendAt ≤ u.sendAt) = true :=
    fun s t u hst htu => decide_eq_true
      (Instant.le_trans (of_decide_eq_true hst) (of_decide_eq_true htu))
  have htotal : ∀ s t : Task,
      (decide (s.sendAt ≤ t.sendAt) || decide (t.sendAt ≤ s.sendAt)) = true := fun s t => by
    simpa [Instant.le_def] using Int.le_total s.sendAt.ns t.sendAt.ns
  have hsorted := List.pairwise_mergeSort htrans htotal l
  exact hsorted.imp of_decide_eq_true

theorem lists_dueTasks : m.Lists b now (m.dueTasks b now) :=
  ⟨List.mergeSort_perm .., pairwise_mergeSort_sendAt _⟩

theorem Lists.mem_iff {due : List Task} (h : m.Lists b now due) :
    t ∈ due ↔ t ∈ m.tasks ∧ t.isDue now b.maxAttempts = true := by
  rw [h.perm.mem_iff, List.mem_filter]

theorem allows_due (hb : m.binding = some b) {x : Except StoreError (List Store.Due)} :
    m.Allows (.due now) x ↔ ∃ l, m.Lists b now l ∧ x = .ok (l.map .task) := by
  simp only [Allows, AllowsBound, hb]
  constructor
  · rintro ⟨due, rfl, l, hl, rfl⟩
    exact ⟨l, hl, rfl⟩
  · rintro ⟨l, hl, rfl⟩
    exact ⟨_, rfl, l, hl, rfl⟩

theorem allows_find (hb : m.binding = some b) {x : Except StoreError (Option Task)} :
    m.Allows (.find r before) x ↔
      (∃ t, m.Finds r.groupingKey before t ∧ x = .ok (some t)) ∨
        m.joinable r.groupingKey before = [] ∧ x = .ok none := by
  simp only [Allows, AllowsBound, hb]
  constructor
  · rintro ⟨_ | t, rfl, h⟩
    · exact .inr ⟨h, rfl⟩
    · exact .inl ⟨t, h, rfl⟩
  · rintro (⟨t, h, rfl⟩ | ⟨h, rfl⟩)
    · exact ⟨_, rfl, h⟩
    · exact ⟨_, rfl, h⟩

/-- The store answers by the order in which it has its tasks. -/
theorem allows_answer (m : Memory) (c : Store.Call) : m.Allows c (m.answer c).1 := by
  rcases hb : m.binding with _ | b
  · cases c <;> simp [Allows, AllowsBound, answer, whenBound, hb]
  · cases c with
    | due now =>
      refine (allows_due hb).2 ⟨_, lists_dueTasks, ?_⟩
      simp only [answer, whenBound, hb]
    | find r before =>
      simp only [answer, whenBound, hb]
      refine (allows_find hb).2 ?_
      rcases hf : m.findPending r.groupingKey before with _ | t
      · exact .inr ⟨findPending_eq_none.1 hf, rfl⟩
      · exact .inl ⟨t, finds_of_findPending hf, rfl⟩
    | look | insert | mutate | delete | cancel => rfl

theorem mem_of_due {due : List Store.Due} (h : m.Allows (.due now) (.ok due))
    (ht : .task t ∈ due) :
    ∃ b, m.binding = some b ∧ t ∈ m.tasks ∧ t.isDue now b.maxAttempts = true := by
  rcases hb : m.binding with _ | b
  · simp [Allows, AllowsBound, hb] at h
  · obtain ⟨l, hl, hdue⟩ := (allows_due hb).1 h
    obtain rfl := Except.ok.inj hdue
    obtain ⟨u, hu, he⟩ := List.mem_map.1 ht
    obtain rfl := Store.Due.task.inj he
    exact ⟨b, rfl, hl.mem_iff.1 hu⟩

theorem mem_of_find (h : m.Allows (.find r before) (.ok (some t))) :
    t ∈ m.tasks ∧ t.isOpen = true ∧ t.sendAt ≤ before ∧
      t.recipient.groupingKey = r.groupingKey := by
  rcases hb : m.binding with _ | b
  · simp [Allows, AllowsBound, hb] at h
  · rcases (allows_find hb).1 h with ⟨u, hu, hok⟩ | ⟨-, hok⟩
    · obtain rfl := Option.some.inj (Except.ok.inj hok)
      exact mem_joinable.1 hu.mem
    · cases hok

/-! ### Tasks in another order -/

theorem mem_tasks_iff_get? (hm : m.Distinct) : t ∈ m.tasks ↔ m.get? t.id = some t :=
  ⟨get?_of_mem hm, List.mem_of_find?_eq_some⟩

/-- The view does not depend on the order. -/
theorem get?_of_perm (hm : m.Distinct) (hp : m'.tasks.Perm m.tasks) : m'.get? = m.get? := by
  have hm' : m'.Distinct := (hp.map Task.id).nodup_iff.2 hm
  funext id
  refine Option.ext fun t => ⟨fun h => ?_, fun h => ?_⟩
  · obtain rfl := id_of_get? h
    exact (mem_tasks_iff_get? hm).1 (hp.mem_iff.1 ((mem_tasks_iff_get? hm').2 h))
  · obtain rfl := id_of_get? h
    exact (mem_tasks_iff_get? hm').1 (hp.mem_iff.2 ((mem_tasks_iff_get? hm).2 h))

theorem fst_answer_eq (hb : m'.binding = m.binding) (hget : m'.get? = m.get?)
    (hdue : ∀ now, c ≠ .due now) (hfind : ∀ r before, c ≠ .find r before) :
    (m'.answer c).1 = (m.answer c).1 := by
  cases c with
  | due now => exact absurd rfl (hdue now)
  | find r before => exact absurd rfl (hfind r before)
  | look => rfl
  | insert task =>
    simp only [answer, whenBound, hb, hget]
    split
    · split <;> rfl
    · rfl
  | mutate id p =>
    have hmutate : (m'.mutate id p).1 = (m.mutate id p).1 := by
      rw [mutate, mutate, hget]
      rcases (m.get? id).bind p.applied? with _ | t <;> rfl
    exact congrArg Except.ok hmutate
  | delete id => simp only [answer, hget]
  | cancel id =>
    simp only [answer, whenBound, hb]
    split
    · simp only [cancel, hget]
      split
      · rfl
      · split <;> rfl
    · rfl

theorem allows_of_perm (hp : m'.tasks.Perm m.tasks) (hb : m'.binding = m.binding)
    (hm : m.Distinct) (h : m'.Allows c a) : m.Allows c a := by
  have hjoin : ∀ key w, (m'.joinable key w).Perm (m.joinable key w) := fun _ _ => hp.filter _
  cases c with
  | due now =>
    rcases hb' : m.binding with _ | b <;> rw [hb'] at hb
    · simpa only [Allows, AllowsBound, hb, hb'] using h
    · obtain ⟨l, hl, rfl⟩ := (allows_due hb).1 h
      exact (allows_due hb').2 ⟨l, ⟨hl.perm.trans (hp.filter _), hl.sorted⟩, rfl⟩
  | find r before =>
    rcases hb' : m.binding with _ | b <;> rw [hb'] at hb
    · simpa only [Allows, AllowsBound, hb, hb'] using h
    · refine (allows_find hb').2 ?_
      rcases (allows_find hb).1 h with ⟨t, ht, rfl⟩ | ⟨hnone, rfl⟩
      · refine .inl ⟨t, ⟨(hjoin _ _).mem_iff.1 ht.mem, fun u hu => ?_⟩, rfl⟩
        exact ht.last u ((hjoin _ _).mem_iff.2 hu)
      · exact .inr ⟨(hnone ▸ hjoin _ _).nil_eq.symm, rfl⟩
  | look | insert | mutate | delete | cancel =>
    exact (show a = _ from h).trans
      (fst_answer_eq hb (get?_of_perm hm hp) (fun _ => nofun) fun _ _ => nofun)

theorem dueTasks_append {l rest : List Task} (hl : ∀ t ∈ l, t.isDue now b.maxAttempts = true)
    (hrest : ∀ t ∈ rest, ¬ t.isDue now b.maxAttempts = true)
    (hs : l.Pairwise fun s t => s.sendAt ≤ t.sendAt) :
    dueTasks ⟨l ++ rest, some b⟩ b now = l := by
  have hfilter : (l ++ rest).filter (fun t => t.isDue now b.maxAttempts) = l := by
    rw [List.filter_append, List.filter_eq_self.2 hl, List.filter_eq_nil_iff.2 hrest,
      List.append_nil]
  rw [dueTasks, hfilter]
  exact List.mergeSort_of_pairwise (hs.imp decide_eq_true)

theorem Lists.exists_perm {l : List Task} (h : m.Lists b now l) :
    ∃ ts, ts.Perm m.tasks ∧ dueTasks ⟨ts, some b⟩ b now = l := by
  refine ⟨l ++ m.tasks.filter fun t => !t.isDue now b.maxAttempts,
    (h.perm.append_right _).trans (List.filter_append_perm _ _),
    dueTasks_append (fun t ht => (h.mem_iff.1 ht).2) (fun t ht => ?_) h.sorted⟩
  simpa using (List.mem_filter.1 ht).2

theorem findPending_cons {l : List Task} (ht : Finds ⟨t :: l, some b⟩ key before t) :
    findPending ⟨t :: l, some b⟩ key before = some t := by
  have hmem := (mem_joinable.1 ht.mem).2
  have hjoin : joinable ⟨t :: l, some b⟩ key before = t :: joinable ⟨l, some b⟩ key before :=
    List.filter_cons_of_pos (by simpa [and_assoc] using hmem)
  rw [findPending, hjoin]
  exact foldl_later_of_le fun u hu => ht.last u (hjoin ▸ List.mem_cons_of_mem t hu)

theorem Finds.exists_perm (h : m.Finds key before t) :
    ∃ ts, ts.Perm m.tasks ∧ findPending ⟨ts, some b⟩ key before = some t := by
  obtain ⟨l₁, l₂, htasks⟩ := List.append_of_mem (mem_joinable.1 h.mem).1
  have hp : (t :: (l₁ ++ l₂)).Perm m.tasks := htasks ▸ List.perm_middle.symm
  have hjoin : (joinable ⟨t :: (l₁ ++ l₂), some b⟩ key before).Perm (m.joinable key before) :=
    hp.filter _
  exact ⟨_, hp, findPending_cons ⟨hjoin.mem_iff.2 h.mem,
    fun u hu => h.last u (hjoin.mem_iff.1 hu)⟩⟩

/-- **What may be answered** is what the store answers with its tasks in some order. -/
theorem allows_iff (hm : m.Distinct) : m.Allows c a ↔
    ∃ m' : Memory, m'.tasks.Perm m.tasks ∧ m'.binding = m.binding ∧ a = (m'.answer c).1 := by
  constructor
  swap
  · rintro ⟨m', hp, hb, rfl⟩
    exact allows_of_perm hp hb hm (allows_answer m' c)
  intro h
  cases c with
  | due now =>
    rcases hb : m.binding with _ | b
    · exact ⟨m, .refl _, hb, by simpa [Allows, AllowsBound, answer, whenBound, hb] using h⟩
    · -- the tasks in an order that has the listed ones in front
      obtain ⟨l, hl, rfl⟩ := (allows_due hb).1 h
      obtain ⟨ts, hp, hdue⟩ := hl.exists_perm
      exact ⟨⟨ts, some b⟩, hp, rfl, by simp only [answer, whenBound, hdue]⟩
  | find r before =>
    rcases hb : m.binding with _ | b
    · exact ⟨m, .refl _, hb, by simpa [Allows, AllowsBound, answer, whenBound, hb] using h⟩
    · rcases (allows_find hb).1 h with ⟨t, ht, rfl⟩ | ⟨hnone, rfl⟩
      · -- the one that is found is put in front, where it comes before all as late
        obtain ⟨ts, hp, hfound⟩ := ht.exists_perm (b := b)
        exact ⟨⟨ts, some b⟩, hp, rfl, by simp only [answer, whenBound, hfound]⟩
      · refine ⟨m, .refl _, hb, ?_⟩
        simp only [answer, whenBound, hb, findPending_eq_none.2 hnone]
  | look | insert | mutate | delete | cancel => exact ⟨m, .refl _, rfl, h⟩

end

/-! ### The view after a call -/

theorem get?_put_of_id {u : Task} (h : m.get? id = some t) (hu : u.id = id) (id' : TaskId) :
    (m.put u).get? id' = if id = id' then some u else m.get? id' := by
  rw [get?_put, hu]
  split
  · next e => rw [← e, h]; rfl
  · rfl

theorem get?_mutate (p : Patch) (id' : TaskId) :
    (m.mutate id p).2.get? id' =
      Store.Call.effect b.keepHistory id' (.mutate id p) (.ok (m.mutate id p).1) (m.get? id') := by
  rcases h : (m.mutate id p).1 with _ | _
  · rw [mutate_eq_false h]; rfl
  · obtain ⟨u, hu, hg⟩ := mutate_eq_true h
    have hi : (p.apply u).id = id := (p.apply_id u).trans (id_of_get? hu)
    rw [mutate_of_guardHolds hu hg, get?_put_of_id hu hi]
    simp only [Store.Call.effect]
    split
    · next e => rw [← e, hu]; rfl
    · rfl

theorem get?_cancel (id' : TaskId) :
    (m.cancel b id).2.get? id' =
      Store.Call.effect b.keepHistory id' (.cancel id) (.ok (m.cancel b id).1) (m.get? id') := by
  rcases h : (m.cancel b id).1 with _ | _
  · rw [cancel_eq_false h]; rfl
  · obtain ⟨u, hu, ho⟩ := cancel_eq_true h
    simp only [cancel, hu, ho, if_true, Store.Call.effect]
    by_cases hk : b.keepHistory = true
    · have hu' : u.id = id := id_of_get? hu
      have hi : ({ u with cancelled := true } : Task).id = id := hu'
      rw [if_pos hk, if_pos hk, get?_put_of_id hu hi]
      split
      · next e => rw [← e, hu]; rfl
      · rfl
    · rw [if_neg hk, if_neg hk, get?_erase]

/-- **What a call does to the view.** -/
theorem get?_answer (hb : m.binding = some b) (c : Store.Call) (id : TaskId) :
    (m.answer c).2.get? id = c.effect b.keepHistory id (m.answer c).1 (m.get? id) := by
  cases c with
  | due now => simp [answer, whenBound, hb, Store.Call.effect]
  | look key now => rfl
  | find r before => simp [answer, whenBound, hb, Store.Call.effect]
  | insert task =>
    rcases hg : m.get? task.id with _ | u
    · simp [answer, whenBound, hb, hg, get?_add, Store.Call.effect]
    · simp [answer, whenBound, hb, hg, Store.Call.effect]
  | mutate i p => exact get?_mutate p id
  | delete i => simp [answer, get?_erase, Store.Call.effect]
  | cancel i =>
    simp only [answer, whenBound, hb]
    exact get?_cancel id

/-- Whatever is answered, the view goes by the answer. -/
theorem get?_of_allows (hb : m.binding = some b) {c : Store.Call} {a : c.Answer}
    (h : m.Allows c a) (id : TaskId) :
    (m.answer c).2.get? id = c.effect b.keepHistory id a (m.get? id) := by
  cases c with
  | due | find => exact get?_answer hb _ id
  | look | insert | mutate | delete | cancel =>
    obtain rfl : a = _ := h
    exact get?_answer hb _ id

theorem binding_answer (c : Store.Call) : (m.answer c).2.binding = m.binding := by
  rcases hb : m.binding with _ | b
  · cases c <;> simp only [answer, whenBound, hb]
    · unfold mutate; split <;> simp [put, hb]
    · simp [erase, hb]
  · cases c <;> simp only [answer, whenBound, hb]
    · split <;> simp [add, hb]
    · unfold mutate; split <;> simp [put, hb]
    · simp [erase, hb]
    · unfold cancel; split
      · exact hb
      · split
        · split <;> simp [put, erase, hb]
        · exact hb

theorem effect_none (keepHistory : Bool) (id : TaskId) {c : Store.Call} (a : c.Answer)
    (hc : ∀ task, c = .insert task → task.id ≠ id) : c.effect keepHistory id a none = none := by
  cases c with
  | due | look | find => rfl
  | insert task =>
    rcases a with e | u
    · rfl
    · exact if_neg (hc task rfl)
  | mutate id' p =>
    rcases a with e | _ | _
    · rfl
    · rfl
    · exact ite_self none
  | delete id' =>
    rcases a with e | o
    · rfl
    · exact ite_self none
  | cancel id' =>
    rcases a with e | _ | _
    · rfl
    · rfl
    · show (if id' = id then if keepHistory then none else none else none) = none
      rw [ite_self, ite_self]

/-! ### Distinct identifiers -/

theorem distinct_put (h : m.Distinct) (u : Task) : (m.put u).Distinct := by
  have he : (m.put u).tasks.map Task.id = m.tasks.map Task.id := by
    simp only [put, List.map_map]
    refine List.map_congr_left fun t _ => ?_
    simp only [Function.comp]
    split
    · next e => exact e.symm
    · rfl
  rw [Distinct, he]
  exact h

theorem distinct_erase (h : m.Distinct) (id : TaskId) : (m.erase id).Distinct :=
  h.sublist (List.filter_sublist.map Task.id)

theorem distinct_add (h : m.Distinct) (hg : m.get? t.id = none) : (m.add t).Distinct := by
  refine List.nodup_cons.2 ⟨fun hm => ?_, h⟩
  obtain ⟨u, hu, he⟩ := List.mem_map.1 hm
  rw [← he, get?_of_mem h hu] at hg
  cases hg

theorem distinct_mutate (h : m.Distinct) (id : TaskId) (p : Patch) :
    (m.mutate id p).2.Distinct := by
  unfold mutate
  split
  · exact distinct_put h _
  · exact h

theorem distinct_cancel (h : m.Distinct) (b : Binding) (id : TaskId) :
    (m.cancel b id).2.Distinct := by
  unfold cancel
  split
  · exact h
  · split
    · split
      · exact distinct_put h _
      · exact distinct_erase h id
    · exact h

theorem distinct_answer (hb : m.binding = some b) (h : m.Distinct) (c : Store.Call) :
    (m.answer c).2.Distinct := by
  cases c with
  | due | look | find => simpa only [answer, whenBound, hb] using h
  | insert task =>
    simp only [answer, whenBound, hb]
    split
    · exact h
    · next hg => exact distinct_add h (by simpa using hg)
  | mutate i p => exact distinct_mutate h i p
  | delete i => exact distinct_erase h i
  | cancel i =>
    simp only [answer, whenBound, hb]
    exact distinct_cancel h b i

end Memory

end MailQueue

import MailQueue.Proofs.Fleet.Tenure

/-!
# How the mails of a task grow

An append writes back a whole list that was read before, under the condition that the number of
mails is still the same. That the same number means the same mails is an invariant of all the jobs
together.

* `prefix_of_mem_log`: whatever list a task had before is a prefix of the one it has;
* `grown` says in addition what was added since, and by which records;
* `gone_of_gone`: a task that is gone does not come back.
-/

namespace MailQueue.Fleet

open Queue Interleaving

variable {f : Fleet} {s t : State} {id : TaskId} {u v : Task}

lemma was_inserted (h : f.Reachable s) (hu : stored s id = some u) :
    ∃ e ∈ s.log, inserts id e.exchange = true := by
  obtain ⟨clock, hr⟩ := h
  rcases known_of_stored (stock_first f clock) hr hu with hi | hi
  · cases hi
  · exact hi

lemma was_inserted_before (h : f.Reachable s) {b : Entry} (hb : b ∈ s.log)
    (hu : b.before.store.get? id = some u) : ∃ e ∈ s.log, inserts id e.exchange = true := by
  obtain ⟨clock, hr⟩ := h
  obtain ⟨pre, post, hlog⟩ := List.append_of_mem hb
  obtain ⟨w, -, -, hw, hpre, hx, -⟩ := hr.split hlog
  rw [← hx] at hu
  obtain ⟨e, he, hi⟩ := was_inserted ⟨clock, hw⟩ hu
  rw [hpre] at he
  exact ⟨e, by rw [hlog]; exact List.mem_append_left _ he, hi⟩

lemma found_of_mem_log {x₀ : Shared} (h : Run f.rules { shared := x₀ } s)
    (hb : x₀.store.binding = some (Queue.binding f.config)) (hd : x₀.store.Distinct) {e : Entry}
    (he : e ∈ s.log) {r : Recipient} {w : Instant} {t : Task}
    (hx : e.exchange =
      ⟨.store (.find r w), (Except.ok (some t) : Except StoreError (Option Task))⟩) :
    e.before.store.get? t.id = some t ∧ t.isOpen = true ∧ t.sendAt ≤ w := by
  obtain ⟨pre, post, hlog⟩ := List.append_of_mem he
  obtain ⟨u, next, x, hu, -, hs, -, ha, -⟩ := h.split hlog
  obtain ⟨n, j, q, a, b⟩ := e
  cases hx
  rcases answers_store ha with ⟨hd', -⟩ | ⟨⟨e, hd'⟩, -⟩
  · obtain rfl : u.shared = b := hs
    obtain ⟨hm, ho, hw, -⟩ := Memory.mem_of_find hd'
    exact ⟨Memory.get?_of_mem (distinct hu hb hd) hm, ho, hw⟩
  · cases hd'

/-- A task that was looked up and holds as many mails as then holds the same: the list that was
looked up is a prefix of the stored one. -/
lemma fragments_of_joining {x₀ : Shared} (h : Run f.rules { shared := x₀ } s)
    (hb : x₀.store.binding = some (Queue.binding f.config)) (hd : x₀.store.Distinct) {n i : Nat}
    {r : Request} {t : Task} {w : Instant} {rounds : Nat}
    (hc : Course (Intake.Advance (f.queue i) r) (Intake.begin (f.queue i) r) (s.past n)
      (.joining t w rounds))
    (hist : ∀ b ∈ s.log, ∀ u, b.before.store.get? t.id = some u → ∀ v, stored s t.id = some v →
      u.fragments <+: v.fragments)
    (hu : stored s t.id = some u) (hl : u.fragments.length = t.fragments.length) :
    t.fragments = u.fragments := by
  obtain ⟨e, he, -, hx⟩ := mem_pastIn.1 (Intake.found_of_joining hc).1
  obtain ⟨hf, -⟩ := found_of_mem_log h hb hd he hx
  exact (hist e he t hf u hu).eq_of_length hl.symm

/-- The mails of a task that is stored after an answer: those before it and the one that was added,
if the task was not stored anew. -/
lemma Change.grows {n : Nat} {j : Job} {q : Ask} {next : q.Answer → Work j.Result} {x : Exchange}
    {o : Option Task} (h : f.Reachable s) (asks : s.threads[n]? = some ⟨j, .ask q next⟩)
    (hist : ∀ b ∈ s.log, ∀ u, b.before.store.get? id = some u → ∀ v, stored s id = some v →
      u.fragments <+: v.fragments)
    (ch : Change f s n j id x o) (ho : o = some v) :
    (∃ u, stored s id = some u ∧ v.fragments = u.fragments ++ (appended? id x).toList) ∨
      stored s id = none ∧ ∀ e ∈ s.log, inserts id e.exchange = false := by
  obtain ⟨clock, hr⟩ := h
  cases ch with
  | still hc hr hi ha => exact .inl ⟨v, ho, by simp [ha]⟩
  | @born r sendAt hj hd hn =>
    obtain ⟨i, duty⟩ := j
    obtain rfl : duty = .enqueue r := hj
    exact .inr ⟨hn, not_inserted_of_storing hr asks hd⟩
  | @joined r t u w rounds hj ht hd hu hopen hat hl =>
    subst ht
    have heq := fragments_of_joining hr rfl (distinct_first f _) hd hist hu hl
    refine .inl ⟨u, hu, ?_⟩
    rw [← Option.some.inj ho]
    simp [appended?, appendPatch, Patch.guarded, Patch.replaceFragments, heq]
  | withdrawn hj hu hopen =>
    split at ho
    · exact .inl ⟨_, hu, by rw [← Option.some.inj ho]; simp [appended?]⟩
    · cases ho
  | taken hj ht hp hu =>
    exact .inl ⟨_, hu, by rw [← Option.some.inj ho]; simp [appended?, Patch.claim]⟩
  | ended hj ht hd he =>
    cases he with
    | removed | dropped => cases ho
    | putBack _ _ _ hu =>
      exact .inl ⟨_, hu, by rw [← Option.some.inj ho]; simp [appended?, Patch.reschedule]⟩
    | gaveUp _ hu =>
      exact .inl ⟨_, hu, by rw [← Option.some.inj ho]; simp [appended?, Patch.fail]⟩

/-- **The mails of a task only grow**: whatever list it had before is a prefix of the one it has. -/
theorem prefix_of_mem_log (h : f.Reachable s) {b : Entry} (hb : b ∈ s.log)
    (hu : b.before.store.get? id = some u) (hv : stored s id = some v) :
    u.fragments <+: v.fragments := by
  obtain ⟨clock, hr⟩ := h
  have key : ∀ b ∈ s.log, ∀ u, b.before.store.get? id = some u → ∀ v, stored s id = some v →
      u.fragments <+: v.fragments := by
    refine run_view (P := fun m _ log => ∀ b ∈ log, ∀ u, b.before.store.get? id = some u →
      ∀ v, m.get? id = some v → u.fragments <+: v.fragments) (by simp) ?_ hr
    intro s n j q next a y hs asks ha hist b hb u hu v hv
    rcases Change.grows ⟨clock, hs⟩ asks hist (change hs rfl asks ha id) hv with
      ⟨w, hw, he⟩ | ⟨hn, hi⟩
    · have hstep : w.fragments <+: v.fragments := by rw [he]; exact List.prefix_append _ _
      rcases List.mem_append.1 hb with hb | hb
      · exact (hist b hb u hu w hw).trans hstep
      · obtain rfl := List.mem_singleton.1 hb
        obtain rfl : w = u := Option.some.inj (hw.symm.trans hu)
        exact hstep
    · rcases List.mem_append.1 hb with hb | hb
      · obtain ⟨e, he, hx⟩ := was_inserted_before ⟨clock, hs⟩ hb hu
        rw [hi e he] at hx
        cases hx
      · obtain rfl := List.mem_singleton.1 hb
        cases hn.symm.trans hu
  exact key b hb u hu v hv

lemma Reachable.change (h : f.Reachable s) {n : Nat} {j : Job} {q : Ask}
    {next : q.Answer → Work j.Result} {a : q.Answer} {y : Shared}
    (asks : s.threads[n]? = some ⟨j, .ask q next⟩) (ha : f.Answers j.queue s.shared q a y)
    (id : TaskId) : Change f s n j id ⟨q, a⟩ (y.store.get? id) := by
  obtain ⟨clock, hr⟩ := h
  exact Fleet.change hr rfl asks ha id

lemma grows (h : f.Reachable s) {n : Nat} {j : Job} {q : Ask} {next : q.Answer → Work j.Result}
    {a : q.Answer} {y : Shared} (asks : s.threads[n]? = some ⟨j, .ask q next⟩)
    (ha : f.Answers j.queue s.shared q a y) (hv : y.store.get? id = some v) :
    (∃ u, stored s id = some u ∧ v.fragments = u.fragments ++ (appended? id ⟨q, a⟩).toList) ∨
      stored s id = none ∧ ∀ e ∈ s.log, inserts id e.exchange = false := by
  exact Change.grows h asks (fun b hb u hu w hw => prefix_of_mem_log h hb hu hw)
    (h.change asks ha id) hv

lemma Reachable.trans (h : f.Reachable s) (h' : Run f.rules s t) : f.Reachable t := by
  obtain ⟨clock, hr⟩ := h
  exact ⟨clock, hr.trans h'⟩

theorem gone_of_gone (h : f.Reachable s) (h' : Run f.rules s t)
    (hi : ∃ e ∈ s.log, inserts id e.exchange = true) (hs : stored s id = none) :
    stored t id = none := by
  obtain ⟨clock, hr⟩ := h
  refine view_since (P := fun m _ => m.get? id = none) hr h' hs ?_
  intro t n j q next a y ht hst asks ha ih
  by_contra hv
  obtain ⟨v, hv⟩ := Option.ne_none_iff_exists'.1 hv
  rcases grows ⟨clock, ht⟩ asks ha hv with ⟨u, hu, -⟩ | ⟨-, hn⟩
  · cases ih.symm.trans hu
  · obtain ⟨e, he, hx⟩ := hi
    rw [hn e (hst.log_grows.subset he)] at hx
    cases hx

/-- **What a task has more than before was added since**, mail by mail. -/
theorem grown (h : f.Reachable s) (h' : Run f.rules s t) (hu : stored s id = some u)
    (hv : stored t id = some v) :
    v.fragments = u.fragments ++
      (t.log.drop s.log.length).filterMap fun e => appended? id e.exchange := by
  have hborn := was_inserted h hu
  obtain ⟨clock, hr⟩ := h
  have key : ∀ v, stored t id = some v → v.fragments = u.fragments ++
      (t.log.drop s.log.length).filterMap fun e => appended? id e.exchange := by
    refine view_since (P := fun m log => ∀ v, m.get? id = some v → v.fragments = u.fragments ++
      (log.drop s.log.length).filterMap fun e => appended? id e.exchange) hr h' (fun v hv => ?_) ?_
    · obtain rfl : u = v := Option.some.inj (hu.symm.trans hv)
      simp
    · intro t n j q next a y ht hst asks ha ih v hv
      rcases grows ⟨clock, ht⟩ asks ha hv with ⟨x, hx, he⟩ | ⟨-, hn⟩
      · rw [he, ih x hx, List.drop_append_of_le_length hst.log_grows.length_le,
          List.filterMap_append, List.append_assoc]
        congr 2
      · obtain ⟨e, he, hx⟩ := hborn
        rw [hn e (hst.log_grows.subset he)] at hx
        cases hx
  exact key v hv

end MailQueue.Fleet

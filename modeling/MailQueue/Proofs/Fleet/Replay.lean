import MailQueue.Proofs.Fleet.Invariant

/-!
# The store as its records tell it

The task under an identifier is what the recorded answers have made of it, one after the other. A
tick that runs alone works on each of its tasks by one job, so what that job was answered tells
what is stored.

* `replay`: the task under an identifier is the fold of its records;
* `Alone.claimed_once`: while nothing is stored anew, no two jobs of a tick claim one task;
* `Alone.replay`: what is stored after a tick that ran alone, by the answers of one job.
-/

namespace MailQueue.Fleet

open Queue Interleaving

/-! ### Records and the store -/

/-- What an answer makes of the task under an identifier. -/
def effect (keepHistory : Bool) (id : TaskId) : Exchange → Option Task → Option Task
  | ⟨.store c, a⟩, o => c.effect keepHistory id a o
  | _, o => o

variable {f : Fleet} {x₀ : Shared} {s : State} {keep : Bool} {id : TaskId}

lemma effect_store (c : Store.Call) (a : c.Answer) (o : Option Task) :
    effect keep id ⟨.store c, a⟩ o = c.effect keep id a o := rfl

lemma effect_failed (c : Store.Call) (e : StoreError) (o : Option Task) :
    effect keep id ⟨.store c, c.failed e⟩ o = o := by
  cases c <;> rfl

lemma get?_of_answers {i : Nat} {x y : Shared} {q : Ask} {a : q.Answer}
    (hb : x.store.binding = some (Queue.binding f.config)) (h : f.Answers i x q a y) :
    y.store.get? id = effect f.config.keepHistory id ⟨q, a⟩ (x.store.get? id) := by
  cases h with
  | store c hc => exact Memory.get?_of_allows hb hc id
  | fault c e => exact (effect_failed c e _).symm
  | _ => rfl

/-- **The task under an identifier is what the records make of it.** -/
theorem replay (h : Run f.rules { shared := x₀ } s)
    (hb : x₀.store.binding = some (Queue.binding f.config)) (id : TaskId) :
    stored s id = s.log.foldl (fun o e => effect f.config.keepHistory id e.exchange o)
      (x₀.store.get? id) := by
  refine run_view (P := fun m _ log => m.get? id =
    log.foldl (fun o e => effect f.config.keepHistory id e.exchange o) (x₀.store.get? id))
    rfl ?_ h
  intro s n j q next a y hs _ ha hm
  rw [List.foldl_append, ← hm]
  exact get?_of_answers (bound hs hb) ha

lemma foldl_eq_past {log : List Entry} {n : Nat}
    (h : ∀ e ∈ log, e.thread ≠ n → ∀ o, effect keep id e.exchange o = o) (o : Option Task) :
    log.foldl (fun o e => effect keep id e.exchange o) o =
      (pastIn log n).foldl (fun o x => effect keep id x o) o := by
  induction log generalizing o with
  | nil => rfl
  | cons e log ih =>
    have ih := ih fun e' he' => h e' (List.mem_cons_of_mem _ he')
    rw [List.foldl_cons]
    rcases eq_or_ne e.thread n with rfl | hne
    · rw [ih]
      simp [pastIn]
    · rw [h e (List.mem_cons_self ..) hne, ih]
      simp [pastIn, hne]

end MailQueue.Fleet

namespace MailQueue.Attempt

open Queue Fleet

variable {q : Queue} {t : Task} {l : List Fleet.Exchange} {d e : Attempt} {id : TaskId} {a : Ask}
  {x : a.Answer} {keep : Bool}

/-- The work on a task leaves every other task alone, and its own until the claim. -/
lemma Advance.leaves (h : Advance q t d a x e) (hd : e.took = false ∨ t.id ≠ id)
    (o : Option Task) : Fleet.effect keep id ⟨a, x⟩ o = o := by
  cases h with
  | @lost answer hne =>
    rcases answer with _ | _ | _
    · rfl
    · rfl
    · exact absurd rfl hne
  | claimed | removed | dropped | marked | putBack =>
    rcases hd with hd | hd
    · cases hd
    · have hd' : (some t.id : Option TaskId) ≠ some id := fun h => hd (Option.some.inj h)
      refine (effect_store _ _ o).trans (effect_of_target_ne ?_ o)
      exact hd'
  | _ => rfl

lemma leaves_of_course (h : Course (Advance q t) (begin t) l d)
    (hd : d.took = false ∨ t.id ≠ id) {x : Fleet.Exchange} (hx : x ∈ l) (o : Option Task) :
    Fleet.effect keep id x o = o := by
  induction h with
  | refl => cases hx
  | @snoc l d e a y h step ih =>
    rcases List.mem_append.1 hx with hx | hx
    · refine ih (hd.imp_left fun he => ?_) hx
      rcases step.claims t.id with ⟨-, ht⟩ | ⟨-, rfl, -⟩
      · rw [← ht, he]
      · cases he
    · rw [List.mem_singleton.1 hx]
      exact step.leaves hd o

/-- Between its claim and its last write the work has only claimed its task. -/
lemma foldl_of_course (h : Course (Advance q t) (begin t) l d) (ht : d.took = true)
    (hp : d.pending = true) (o : Option Task) :
    l.foldl (fun o x => Fleet.effect keep t.id x o) o =
      o.map (Patch.claim t.attempts (nextAttempt t.attempts)).apply := by
  induction h with
  | refl =>
    unfold begin at ht
    split at ht <;> cases ht
  | @snoc l d e a x h step ih =>
    rw [List.foldl_append]
    cases step with
    | lost => cases ht
    | claimed =>
      rw [eq_nil_of_claiming h]
      simp [Fleet.effect, Store.Call.effect]
    | picked | sent | timed => rw [ih rfl rfl]; rfl
    | removed | marked | dropped | putBack | told => cases hp

end MailQueue.Attempt

namespace MailQueue.Fleet

open Queue Interleaving

variable {f : Fleet} {tasks : List Task} {x₀ : Shared} {s : State} {id : TaskId}

/-! ### A tick that runs alone -/

/-- Nothing has run but the tick whose first part is job 0. -/
def Alone (s : State) : Prop :=
  ∀ m th, s.threads[m]? = some th → th.job.duty = .list ∧ m = 0 ∨ ∃ t, th.job.duty = .process 0 t

lemma Alone.of_run {u : State} (h : Alone u) (hr : Run f.rules s u) : Alone s := by
  intro m th hm
  obtain ⟨j, w⟩ := th
  obtain ⟨w', hw⟩ := hr.job_stays hm
  exact h m ⟨j, w'⟩ hw

lemma Alone.not_inserts (h : Alone s) (hr : Run f.rules { shared := x₀ } s) {e : Entry}
    (he : e ∈ s.log) : inserts id e.exchange = false := by
  by_contra hi
  have hi : inserts id e.exchange = true := by simpa using hi
  obtain ⟨w, hw⟩ := hr.thread_of_mem_log he
  have hx : e.exchange ∈ s.past e.thread := mem_pastIn.2 ⟨e, he, rfl, rfl⟩
  obtain ⟨n, ⟨i, duty⟩, q, a, b⟩ := e
  rcases h n _ hw with ⟨hd, -⟩ | ⟨t, hd⟩
  · obtain rfl : duty = .list := hd
    rcases asked_of_listing (hr.path hw) hx with ⟨now, hx⟩ | ⟨now, a, hx⟩ <;> rw [hx] at hi <;>
      cases hi
  · obtain rfl : duty = .process 0 t := hd
    obtain ⟨d, hd, -⟩ := attempt_of hr hw
    rw [Attempt.inserts_of_course hd hx] at hi
    cases hi

/-- Two jobs of a tick on one task were given it in the same state. -/
lemma listed_eq (hr : Run f.rules { shared := x₀ } s)
    (hb : x₀.store.binding = some (Queue.binding f.config)) (hd : x₀.store.Distinct)
    {n n' i i' : Nat} {t t' : Task} {w w' : Work TaskOutcome}
    (hn : s.threads[n]? = some ⟨⟨i, .process 0 t⟩, w⟩)
    (hn' : s.threads[n']? = some ⟨⟨i', .process 0 t'⟩, w'⟩) (hid : t.id = t'.id) : t = t' := by
  obtain ⟨e, he, now, due, hk, hj, hx, ht⟩ := listed_of_process hr hn
  obtain ⟨e', he', now', due', hk', -, hx', ht'⟩ := listed_of_process hr hn'
  obtain ⟨v, hv⟩ := hr.thread_of_job he hj
  rw [hk] at hv
  have hpast := hr.path hv
  have hm : ⟨.store (.due now), .ok due⟩ ∈ s.past 0 := mem_pastIn.2 ⟨e, he, hk, hx⟩
  have hm' : ⟨.store (.due now'), .ok due'⟩ ∈ s.past 0 := mem_pastIn.2 ⟨e', he', hk', hx'⟩
  -- both were taken from the one list of due tasks, where identifiers are distinct
  cases due_unique_of_listing hpast hm hm'
  have hget := listed_as_stored hr hb hd he hx ht
  have hget' := listed_as_stored hr hb hd he hx ht'
  rw [← hid] at hget'
  exact Option.some.inj (hget.symm.trans hget')

/-- Unless it stores the task anew an answer lowers no attempts, and a claim finds those that its
job was given and raises them. -/
lemma Change.attempts_le (hr : Run f.rules { shared := x₀ } s)
    (hb : x₀.store.binding = some (Queue.binding f.config)) {n : Nat} {j : Job} {q : Ask}
    {next : q.Answer → Work j.Result} {x : Exchange} {v : Task}
    (asks : s.threads[n]? = some ⟨j, .ask q next⟩) (ch : Change f s n j id x (some v))
    (hi : inserts id x = false) :
    ∃ u, stored s id = some u ∧ u.attempts ≤ v.attempts ∧
      ((claim? id x).isSome = true → ∀ t, j.task? = some t → t.attempts < v.attempts) := by
  generalize ho : some v = o at ch
  cases ch with
  | still hc => exact ⟨v, ho.symm, UInt32.le_refl _, fun h => by rw [hc] at h; cases h⟩
  | born =>
    rw [Intake.inserts_fresh] at hi
    cases hi
  | joined _ _ _ hu =>
    rw [Option.some.inj ho]
    exact ⟨_, hu, UInt32.le_refl _, fun h => by cases h⟩
  | withdrawn _ hu =>
    split at ho
    · rw [Option.some.inj ho]
      exact ⟨_, hu, UInt32.le_refl _, fun h => by cases h⟩
    · cases ho
  | @taken k t u hj _ _ hu _ hat =>
    obtain ⟨i, duty⟩ := j
    obtain rfl : duty = .process k t := hj
    have hlt := Attempt.lt_nextAttempt (due_of_process hr hb asks).2
    rw [Option.some.inj ho]
    refine ⟨u, hu, ?_, fun _ t' ht => ?_⟩
    · rw [hat]
      exact UInt32.le_of_lt hlt
    · obtain rfl : t = t' := Option.some.inj ht
      exact hlt
  | ended _ _ _ hends =>
    have hc := hends.record.1
    cases hends with
    | removed | dropped => cases ho
    | putBack _ _ _ hu | gaveUp _ hu =>
      rw [Option.some.inj ho]
      exact ⟨_, hu, UInt32.le_refl _, fun h => by rw [hc] at h; cases h⟩

/-- While nothing is stored anew, a task has made more attempts than any job that has claimed it
was given. -/
lemma attempts_lt (hr : Run f.rules { shared := x₀ } s)
    (hb : x₀.store.binding = some (Queue.binding f.config))
    (hi : ∀ e ∈ s.log, inserts id e.exchange = false) {e : Entry} (he : e ∈ s.log)
    (hc : (claim? id e.exchange).isSome = true) {t v : Task} (ht : e.job.task? = some t)
    (hv : stored s id = some v) : t.attempts < v.attempts := by
  refine run_view (P := fun m _ log => (∀ e ∈ log, inserts id e.exchange = false) →
    ∀ e ∈ log, (claim? id e.exchange).isSome = true → ∀ t, e.job.task? = some t →
      ∀ v, m.get? id = some v → t.attempts < v.attempts) (by simp) ?_ hr hi e he hc t ht v hv
  intro s n j q next a y hs asks ha ih hi e he hc t ht v hv
  have ih := ih fun e he => hi e (List.mem_append_left _ he)
  have hnew : inserts id (⟨q, a⟩ : Exchange) = false :=
    hi ⟨n, j, q, a, s.shared⟩ (List.mem_append_right _ (List.mem_singleton_self _))
  have ch := change hs hb asks ha id
  rw [hv] at ch
  obtain ⟨u, hu, hle, hlt⟩ := ch.attempts_le hs hb asks hnew
  rcases List.mem_append.1 he with he | he
  · exact UInt32.lt_of_lt_of_le (ih e he hc t ht u hu) hle
  · obtain rfl := List.mem_singleton.1 he
    exact hlt hc t ht

lemma Alone.job_of_claim (h : Alone s) (hr : Run f.rules { shared := x₀ } s) {e : Entry}
    (he : e ∈ s.log) (hc : (claim? id e.exchange).isSome = true) :
    ∃ i t w, e.job = ⟨i, .process 0 t⟩ ∧ t.id = id ∧
      s.threads[e.thread]? = some ⟨⟨i, .process 0 t⟩, w⟩ := by
  obtain ⟨w, hw⟩ := hr.thread_of_mem_log he
  have hx : e.exchange ∈ s.past e.thread := mem_pastIn.2 ⟨e, he, rfl, rfl⟩
  obtain ⟨m, ⟨i, duty⟩, q, a, b⟩ := e
  rcases h _ _ hw with ⟨hj, -⟩ | ⟨t, hj⟩
  · obtain rfl : duty = .list := hj
    rcases asked_of_listing (hr.path hw) hx with ⟨now, hx⟩ | ⟨now, a, hx⟩ <;> rw [hx] at hc <;>
      cases hc
  · obtain rfl : duty = .process 0 t := hj
    obtain ⟨d, hd, -⟩ := attempt_of hr hw
    exact ⟨i, t, w, rfl, (Attempt.took_of_claim hd hx hc).1, hw⟩

/-- No two jobs of a tick claim one task. -/
lemma Alone.claimed_once (h : Alone s) (hr : Run f.rules { shared := x₀ } s)
    (hb : x₀.store.binding = some (Queue.binding f.config)) (hd : x₀.store.Distinct)
    {e e' : Entry} (he : e ∈ s.log) (he' : e' ∈ s.log)
    (hc : (claim? id e.exchange).isSome = true) (hc' : (claim? id e'.exchange).isSome = true) :
    e.thread = e'.thread := by
  -- the later of the two claims would have found more attempts than its job was given
  have key : ∀ {pre post : List Entry} {e e' : Entry}, s.log = pre ++ e' :: post → e ∈ pre →
      (claim? id e.exchange).isSome = true → (claim? id e'.exchange).isSome = true → False := by
    intro pre post e e' hlog hm hc hc'
    have he : e ∈ s.log := by rw [hlog]; exact List.mem_append_left _ hm
    have he' : e' ∈ s.log := by rw [hlog]; simp
    obtain ⟨i, t, w, hj, hid, hw⟩ := h.job_of_claim hr he hc
    obtain ⟨i', t', w', hj', hid', hw'⟩ := h.job_of_claim hr he' hc'
    obtain rfl := listed_eq hr hb hd hw hw' (hid.trans hid'.symm)
    obtain ⟨v, next, x, hv, rfl, -, -, -, ch, hrun⟩ := change_of_split hr hb hlog id
    obtain ⟨k, t', u, -, hk, hu, -, hat, -⟩ := ch.of_claim hc'
    rw [hj'] at hk
    obtain ⟨-, rfl⟩ := Duty.process.inj hk
    have hi : ∀ e ∈ v.log, inserts id e.exchange = false := fun e he =>
      h.not_inserts hr (by rw [hlog]; exact List.mem_append_left _ he)
    have := attempts_lt hv hb hi hm hc (by rw [hj]; rfl) hu
    rw [hat] at this
    exact UInt32.lt_irrefl _ this
  obtain ⟨pre, post, hlog⟩ := List.append_of_mem he'
  rw [hlog] at he
  rcases List.mem_append.1 he with he | he
  · exact (key hlog he hc hc').elim
  rcases List.mem_cons.1 he with rfl | he
  · rfl
  · obtain ⟨p, p', rfl⟩ := List.append_of_mem he
    have hlog : s.log = (pre ++ e' :: p) ++ e :: p' := by rw [hlog]; simp
    exact (key hlog (by simp) hc' hc).elim

/-- What a job of a tick has claimed no other job touches. -/
lemma Alone.leaves (h : Alone s) (hr : Run f.rules { shared := x₀ } s)
    (hb : x₀.store.binding = some (Queue.binding f.config)) (hd : x₀.store.Distinct) {n : Nat}
    (hc : ∃ x ∈ s.past n, (claim? id x).isSome = true) {e : Entry} (he : e ∈ s.log)
    (hne : e.thread ≠ n) {keep : Bool} (o : Option Task) : effect keep id e.exchange o = o := by
  obtain ⟨w, hw⟩ := hr.thread_of_mem_log he
  have hx : e.exchange ∈ s.past e.thread := mem_pastIn.2 ⟨e, he, rfl, rfl⟩
  obtain ⟨y, hy, hcy⟩ := hc
  obtain ⟨c, hcm, rfl, rfl⟩ := mem_pastIn.1 hy
  rcases h _ _ hw with ⟨hj, -⟩ | ⟨t, hj⟩
  · obtain ⟨m, ⟨i, duty⟩, q, a, b⟩ := e
    obtain rfl : duty = .list := hj
    rcases asked_of_listing (hr.path hw) hx with ⟨now, hx⟩ | ⟨now, a, hx⟩ <;> rw [hx] <;> rfl
  · obtain ⟨m, ⟨i, duty⟩, q, a, b⟩ := e
    obtain rfl : duty = .process 0 t := hj
    obtain ⟨d, hdc, -⟩ := attempt_of hr hw
    refine Attempt.leaves_of_course hdc ?_ hx o
    by_contra hcon
    rw [not_or, not_not] at hcon
    obtain ⟨htook, rfl⟩ := hcon
    obtain ⟨z, hz, hzc⟩ := Attempt.claim_of_took hdc (by simpa using htook)
    obtain ⟨e', he', rfl, rfl⟩ := mem_pastIn.1 hz
    have hsame := h.claimed_once hr hb hd he' hcm hzc hcy
    exact hne hsame

/-- **What a tick that ran alone has stored** is what the job that claimed the task was answered. -/
theorem Alone.replay (h : Alone s) (hr : Run f.rules { shared := x₀ } s)
    (hb : x₀.store.binding = some (Queue.binding f.config)) (hd : x₀.store.Distinct) {n : Nat}
    (hc : ∃ x ∈ s.past n, (claim? id x).isSome = true) {v : State}
    (hv : Run f.rules { shared := x₀ } v) (hvs : v.log <+: s.log) :
    stored v id = (v.past n).foldl (fun o x => effect f.config.keepHistory id x o)
      (x₀.store.get? id) := by
  rw [Fleet.replay hv hb id]
  exact foldl_eq_past (fun e he hne o => h.leaves hr hb hd hc (hvs.subset he) hne o) _

end MailQueue.Fleet

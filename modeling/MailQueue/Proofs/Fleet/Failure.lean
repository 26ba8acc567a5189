import MailQueue.Proofs.Fleet.Play
import MailQueue.Proofs.Fleet.Replay

/-!
# What a tick leaves of a failed attempt

After a failed attempt with another one left, the task is to be put back by one more call of the
store, and the listeners are told that it was. If that call fails nothing tries again: the task
keeps the mark of its claim, and no queue touches it any more.

* `settled`: a task that is not open and in no hand stays as it is, whatever runs;
* `left_open_iff`: after a tick that ran alone the task is open as announced if and only if the call
  did not fail, and otherwise it stays claimed for good.
-/

namespace MailQueue.Fleet

open Queue Interleaving

variable {f : Fleet} {x₀ : Shared} {tasks : List Task} {s s' : State} {id : TaskId} {t v : Task}

/-! ### Tasks that nobody works on -/

/-- No work on the task has come past its claim without having come to its last write. -/
def Unheld (f : Fleet) (s : State) (id : TaskId) : Prop :=
  ∀ n i k t w, s.threads[n]? = some (⟨⟨i, .process k t⟩, w⟩ : Thread) → t.id = id →
    ∀ d, Course (Attempt.Advance (f.queue i) t) (Attempt.begin t) (s.past n) d →
      d.took = true → d.pending = true → False

lemma Change.settled {n : Nat} {j : Job} {q : Ask} {next : q.Answer → Work j.Result} {x : Exchange}
    {o : Option Task} (ch : Change f s n j id x o)
    (asks : s.threads[n]? = some ⟨j, .ask q next⟩) (hv : stored s id = some v)
    (ho : v.isOpen = false) (hu : Unheld f s id) : o = some v ∧ claim? id x = none := by
  cases ch with
  | still hc => exact ⟨hv, hc⟩
  | born _ _ hn => cases hn.symm.trans hv
  | joined _ _ _ hw hopen | withdrawn _ hw hopen | taken _ _ _ hw hopen =>
    rw [Option.some.inj (hw.symm.trans hv), ho] at hopen
    cases hopen
  | @ended k t d _ _ hj ht hd hends =>
    obtain ⟨i, duty⟩ := j
    obtain rfl : duty = .process k t := hj
    obtain ⟨htook, hpend⟩ := hends.state
    exact (hu n i k t _ asks ht d hd htook hpend).elim

/-- **A task that is not open and that nobody works on stays as it is**, whatever runs. -/
theorem settled (h : Run f.rules { shared := x₀ } s)
    (hb : x₀.store.binding = some (Queue.binding f.config)) (h' : Run f.rules s s')
    (hv : stored s id = some v) (ho : v.isOpen = false) (hu : Unheld f s id) :
    stored s' id = some v := by
  suffices key : stored s' id = some v ∧ Unheld f s' id from key.1
  induction h' with
  | refl => exact ⟨hv, hu⟩
  | @snoc s₁ s₂ h' step ih =>
    obtain ⟨hv₁, hu₁⟩ := ih
    have hr := h.trans h'
    cases step with
    | move hm =>
      obtain ⟨clock, rfl⟩ := hm
      exact ⟨hv₁, hu₁⟩
    | start hst =>
      obtain ⟨rfl, -⟩ := hst
      refine ⟨hv₁, fun m i k t w hm ht d hd htook hpend => ?_⟩
      rcases getElem?_started hm with ⟨-, hm⟩ | ⟨rfl, -⟩
      · exact hu₁ m i k t w hm ht d hd htook hpend
      · rw [past_started, hr.past_eq_nil (Nat.le_refl _)] at hd
        rw [hd.eq_of_nil, Attempt.took_begin] at htook
        cases htook
    | @answer n j q next a y asks ha =>
      obtain ⟨hv₂, hc⟩ := (change hr hb asks ha id).settled asks hv₁ ho hu₁
      refine ⟨hv₂, fun m i k t w hm ht d hd htook hpend => ?_⟩
      rcases getElem?_answered (List.getElem?_eq_some_iff.1 asks).1 hm with ⟨rfl, hj⟩ | ⟨hne, hm⟩
      · obtain ⟨rfl, -⟩ := Thread.mk.inj hj
        rw [past_answered_self] at hd
        obtain ⟨d', hd', step⟩ := hd.of_snoc
        -- neither was the task claimed by this answer, nor was it in hand before
        rcases step.claims id with ⟨-, ht'⟩ | ⟨-, -, hx⟩
        · refine hu₁ n i k t _ asks ht d' hd' (ht' ▸ htook) ?_
          rcases step.writes with ⟨-, hp⟩ | ⟨-, hp, -⟩
          · exact hp hpend
          · exact hp
        · rw [hc, if_pos ht] at hx
          cases hx
      · rw [past_answered_of_ne hne] at hd
        exact hu₁ m i k t w hm ht d hd htook hpend

/-! ### A tick that runs alone -/

/-- When a job of a tick has told of its task, nobody works on the task any more. -/
lemma Alone.unheld (h : Alone s) (hr : Run f.rules { shared := x₀ } s)
    (hb : x₀.store.binding = some (Queue.binding f.config)) (hd : x₀.store.Distinct) {n : Nat}
    (hc : ∃ x ∈ s.past n, (claim? id x).isSome = true) {l : List Exchange} {event : Event}
    (hl : s.past n = l ++ [⟨.tell event, ()⟩]) : Unheld f s id := by
  intro m i k t w hm hid d hdc htook hpend
  subst hid
  obtain ⟨y, hy, hcy⟩ := hc
  obtain ⟨c, hcm, hcn, rfl⟩ := mem_pastIn.1 hy
  obtain ⟨z, hz, hce⟩ := Attempt.claim_of_took hdc htook
  obtain ⟨e, he, hem, rfl⟩ := mem_pastIn.1 hz
  have hsame : m = n := hem.symm.trans ((h.claimed_once hr hb hd he hcm hce hcy).trans hcn)
  subst hsame
  rw [hl] at hdc
  obtain ⟨d', -, step⟩ := hdc.of_snoc
  cases step with
  | told => cases hpend

lemma Alone.open_at_first (h : Alone s) (hr : Run f.rules { shared := x₀ } s)
    (hb : x₀.store.binding = some (Queue.binding f.config)) (hd : x₀.store.Distinct) {n : Nat}
    (hc : ∃ x ∈ s.past n, (claim? id x).isSome = true) :
    ∃ u, x₀.store.get? id = some u ∧ u.isOpen = true := by
  obtain ⟨y, hy, hcy⟩ := hc
  obtain ⟨c, hcm, rfl, rfl⟩ := mem_pastIn.1 hy
  obtain ⟨pre, post, hlog⟩ := List.append_of_mem hcm
  obtain ⟨v, next, x, hv, hpre, -, -, -, ch, -⟩ := change_of_split hr hb hlog id
  obtain ⟨k, t', u, hp, -, hu, ho, -⟩ := ch.of_claim hcy
  have hvs : v.log <+: s.log := by rw [hpre, hlog]; exact List.prefix_append _ _
  rw [h.replay hr hb hd ⟨_, hy, hcy⟩ hv hvs, hp] at hu
  exact ⟨u, hu, ho⟩

lemma Alone.answer_of_put_back (h : Alone s) (hr : Run f.rules { shared := x₀ } s)
    (hb : x₀.store.binding = some (Queue.binding f.config)) (hd : x₀.store.Distinct) {n i : Nat}
    {w : Work TaskOutcome} (hn : s.threads[n]? = some ⟨⟨i, .process 0 t⟩, w⟩)
    (hc : ∃ x ∈ s.past n, (claim? t.id x).isSome = true) {retryAt : Instant} {transport : Nat}
    {answer : Except StoreError Bool}
    (ha : ⟨.store (.mutate t.id (.reschedule retryAt transport)), answer⟩ ∈ s.past n) :
    answer = .ok true ∨ ∃ e, answer = .error e := by
  obtain ⟨b, hbm, hbn, hbx⟩ := mem_pastIn.1 ha
  obtain ⟨pre, post, hlog⟩ := List.append_of_mem hbm
  obtain ⟨v, next, x, hv, hpre, hs, asks, hans, -⟩ := change_of_split hr hb hlog t.id
  have hj : b.job = ⟨i, .process 0 t⟩ := hr.job_eq hbm (hbn ▸ hn)
  obtain ⟨m, j, q, a, before⟩ := b
  obtain rfl : m = n := hbn
  obtain rfl : j = ⟨i, .process 0 t⟩ := hj
  cases hbx
  obtain ⟨d, hdc, hw⟩ := attempt_of hv asks
  obtain ⟨d', step, -⟩ := Attempt.follow hw.symm a
  obtain ⟨htook, hpend⟩ := step.holds_of_unconditional rfl
  have hvs : v.log <+: s.log := by rw [hpre, hlog]; exact List.prefix_append _ _
  -- the task is as the claim has left it, so there is something to put back
  obtain ⟨u, hu, -⟩ := h.open_at_first hr hb hd hc
  have hstored := h.replay hr hb hd hc hv hvs
  rw [Attempt.foldl_of_course hdc htook hpend, hu, Option.map_some] at hstored
  rcases answers_store hans with ⟨ha', -⟩ | ⟨⟨e, ha'⟩, -⟩
  · have hput := Memory.mutate_of_guardHolds (p := .reschedule retryAt transport) hstored rfl
    refine .inl (ha'.trans ?_)
    show Except.ok (v.shared.store.mutate t.id (.reschedule retryAt transport)).1 = _
    rw [hput]
  · exact .inr ⟨e, ha'⟩

/-- A failed attempt with another one left ends by putting its task back. -/
lemma rescheduled_of_failure {i : Nat} {l : List Exchange} {o : TaskOutcome}
    (hdc : Course (Attempt.Advance (f.queue i) t) (Attempt.begin t) l (.finished o))
    (htook : (Attempt.finished o).took = true) (hfail : ∀ x ∈ l, accepts x = false)
    (hleft : nextAttempt t.attempts < f.config.maxAttempts) : o = .rescheduled := by
  cases o with
  | rescheduled => rfl
  | skipped => cases htook
  | sent =>
    obtain ⟨x, hx, hacc⟩ := (Attempt.delivered_iff hdc).1 rfl
    rw [hfail x hx] at hacc
    cases hacc
  | failed =>
    have hmax := Attempt.exhausted_of_course hdc rfl
    rw [f.shared i] at hmax
    exact absurd hleft (UInt32.not_lt.2 hmax)

/-- How a task is left by a job whose attempt has failed. The listeners are told that it is put
back; that it is so holds if and only if the call that puts it back did not fail. If it failed the
task keeps the mark of its claim, whatever runs from then on. -/
def LeftAsAnswered (f : Fleet) (s : State) (n : Nat) (t : Task) : Prop :=
  ∃ error retryAt transport answer,
    ⟨.tell (.failed (claimed t) error (.rescheduled retryAt transport)), ()⟩ ∈ s.past n ∧
    ⟨.store (.mutate t.id (.reschedule retryAt transport)), answer⟩ ∈ s.past n ∧
    ((stored s t.id = none ∨ ∃ v, stored s t.id = some v ∧ v.isOpen = true ∧
      v.sendAt = retryAt ∧ v.transport = transport) ↔ ∀ e, answer ≠ .error e) ∧
    ∀ e, answer = .error e → ∀ s', Run f.rules s s' → ∃ v, stored s' t.id = some v ∧
      v.sent = true ∧ v.attempts = nextAttempt t.attempts

/-- **What a tick leaves of a failed attempt** with another one left, when the work on the task is
over and so when the tick returns. -/
theorem left_open_iff (h : f.ReachableFrom tasks s) (hd : (f.storeOf tasks).Distinct)
    (ha : Alone s) {n i : Nat} {o : TaskOutcome}
    (hn : s.threads[n]? = some ⟨⟨i, .process 0 t⟩, .done o⟩)
    (hclaim : ∃ x ∈ s.past n, (claim? t.id x).isSome = true)
    (hfail : ∀ x ∈ s.past n, accepts x = false)
    (hleft : nextAttempt t.attempts < f.config.maxAttempts) : LeftAsAnswered f s n t := by
  obtain ⟨clock, hr⟩ := h
  obtain ⟨d, hdc, hw⟩ := attempt_of hr hn
  have htook : d.took = true := by
    obtain ⟨x, hx, hc⟩ := hclaim
    exact (Attempt.took_of_claim hdc hx hc).2
  obtain ⟨o', rfl⟩ : ∃ o', d = .finished o' := by
    cases d with
    | finished o' => exact ⟨o', rfl⟩
    | _ => cases hw
  obtain rfl := rescheduled_of_failure hdc htook hfail hleft
  obtain ⟨l, retryAt, transport, error, answer, hl, hpast⟩ := Attempt.put_back_of_course hdc
  obtain ⟨u, hu, ho⟩ := ha.open_at_first hr rfl hd hclaim
  have hmem : ⟨.store (.mutate t.id (.reschedule retryAt transport)), answer⟩ ∈ s.past n := by
    rw [hpast]; simp
  have hstored : stored s t.id = effect f.config.keepHistory t.id
      ⟨.store (.mutate t.id (.reschedule retryAt transport)), answer⟩
      (some ((Patch.claim t.attempts (nextAttempt t.attempts)).apply u)) := by
    rw [ha.replay hr rfl hd hclaim hr (List.prefix_refl _), hpast, List.foldl_append,
      List.foldl_append, Attempt.foldl_of_course hl rfl rfl, hu]
    rfl
  have hsent : ∀ e, answer = .error e →
      stored s t.id = some { u with attempts := nextAttempt t.attempts, sent := true } := by
    rintro e rfl
    exact hstored
  refine ⟨error, retryAt, transport, answer, by rw [hpast]; simp, hmem, ?_, ?_⟩
  · rcases ha.answer_of_put_back hr rfl hd hn hclaim hmem with rfl | ⟨e, rfl⟩
    · refine ⟨fun _ e => by simp, fun _ => .inr ⟨{ u with
        attempts := nextAttempt t.attempts, sent := false, sendAt := retryAt,
        transport := transport }, ?_, ?_, rfl, rfl⟩⟩
      · rw [hstored]
        simp only [effect, Store.Call.effect, if_true, Option.map_some]
        rfl
      · simp only [Task.isOpen, Bool.and_eq_true] at ho ⊢
        exact ⟨⟨rfl, ho.1.2⟩, ho.2⟩
    · refine ⟨fun hopen => ?_, fun hno => absurd rfl (hno e)⟩
      rw [hsent e rfl] at hopen
      rcases hopen with hnone | ⟨v, hv, hvo, -⟩
      · cases hnone
      · rw [← Option.some.inj hv] at hvo
        simp [Task.isOpen] at hvo
  · intro e he s' hs'
    have hun := ha.unheld hr rfl hd hclaim hpast
    exact ⟨_, settled hr rfl hs' (hsent e he) (by simp [Task.isOpen]) hun, rfl, rfl⟩

/-- A tick fails to send, and then to put its task back. -/
def forsaken : List Move :=
  [.start 0 .list, .reply 0, .reply 0, .takeUp 0, .reply 1, .reply 1,
    .outcome 1 (.error (.connection "down")), .reply 1, .fault 1 (.other "down"), .reply 1]

/-- The task that the job of this number has put back, if the first job listed it. -/
def putBack? (s : State) (n : Nat) : Option Task :=
  match s.threads[n]? with
  | some ⟨⟨0, .process 0 t⟩, .done .rescheduled⟩ => some t
  | _ => none

lemma thread_of_putBack? {s : State} {n : Nat} (h : putBack? s n = some t) :
    s.threads[n]? = some ⟨⟨0, .process 0 t⟩, .done .rescheduled⟩ := by
  unfold putBack? at h
  split at h
  · next u hn =>
    obtain rfl := Option.some.inj h
    exact hn
  · cases h

/-- There is a tick, and the work on one task that it has listed. -/
def isAlone (s : State) : Bool :=
  match s.threads.map Thread.job with
  | [⟨_, .list⟩, ⟨_, .process 0 _⟩] => true
  | _ => false

lemma alone_of_isAlone {s : State} (h : isAlone s = true) : Alone s := by
  unfold isAlone at h
  split at h
  · next i k u hjobs =>
    intro m th hm
    have hjob : (s.threads.map Thread.job)[m]? = some th.job := by rw [List.getElem?_map, hm]; rfl
    rw [hjobs] at hjob
    rcases m with _ | _ | m
    · exact .inl ⟨congrArg Job.duty (Option.some.inj hjob).symm, rfl⟩
    · exact .inr ⟨u, congrArg Job.duty (Option.some.inj hjob).symm⟩
    · simp at hjob
  · cases h

theorem left_open_iff_forsaken : ∃ tasks s t,
    (uniform {} [⟨"smtp", none⟩]).ReachableFrom tasks s ∧
    ((uniform {} [⟨"smtp", none⟩]).storeOf tasks).Distinct ∧ Alone s ∧
    s.threads[1]? = some ⟨⟨0, .process 0 t⟩, .done .rescheduled⟩ ∧
    (∃ x ∈ s.past 1, (claim? t.id x).isSome = true) ∧ (∀ x ∈ s.past 1, accepts x = false) ∧
    nextAttempt t.attempts < 60 ∧ LeftAsAnswered (uniform {} [⟨"smtp", none⟩]) s 1 t := by
  have key : (((uniform {} [⟨"smtp", none⟩]).playAll
      { shared := (uniform {} [⟨"smtp", none⟩]).first
          [.new (.ofNat 1) (note "a@x" "one").mail .epoch] .epoch } forsaken).any fun s =>
        isAlone s && (putBack? s 1).any fun t =>
          (s.past 1).any (fun x => (claim? t.id x).isSome) &&
            (s.past 1).all (fun x => !accepts x) && decide (nextAttempt t.attempts < 60)) =
      true := by decide +kernel
  obtain ⟨s, hs, hv⟩ := (Option.any_eq_true ..).1 key
  obtain ⟨halone, hv⟩ := (Bool.and_eq_true ..).mp hv
  obtain ⟨t, ht, hv⟩ := (Option.any_eq_true ..).1 hv
  simp only [Bool.and_eq_true, List.any_eq_true, List.all_eq_true, Bool.not_eq_true',
    decide_eq_true_eq] at hv
  obtain ⟨⟨hclaim, hfail⟩, hleft⟩ := hv
  have hreach : (uniform {} [⟨"smtp", none⟩]).ReachableFrom
      [.new (.ofNat 1) (note "a@x" "one").mail .epoch] s := ⟨.epoch, run_of_playAll hs⟩
  have hd : ((uniform {} [⟨"smtp", none⟩]).storeOf
      [.new (.ofNat 1) (note "a@x" "one").mail .epoch]).Distinct := by
    simp [Memory.Distinct, storeOf]
  have ha := alone_of_isAlone halone
  have hn := thread_of_putBack? ht
  exact ⟨_, s, t, hreach, hd, ha, hn, hclaim, hfail, hleft,
    left_open_iff hreach hd ha hn hclaim hfail hleft⟩

end MailQueue.Fleet

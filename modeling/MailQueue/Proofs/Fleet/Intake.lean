import MailQueue.Proofs.Fleet.Record

/-!
# Taking mail in, step by step

`Queue.enqueue` as a machine, as `Attempt` is one of the work on a task, and what the two short
jobs of a queue ask.

* `Intake.work` is the work that is left, with `work_begin` for the whole of it;
* `Intake.Advance` says where an answer leads, and `course` follows what was asked and answered;
* `fresh_of_course`, `ending_of_course`, `dated_of_course` and `adds_of_course` tell what was asked
  when a request has come to a state;
* `listing` and `cancelling` do the same for `Queue.dueNow` and `Queue.cancel`.
-/

namespace MailQueue

open Queue

/-- How far the taking in of a request has come. -/
inductive Intake where
  | dating
  /-- A task for the recipient is looked up, and so many times more after a lost race. -/
  | looking (windowEnd : Instant) (rounds : Nat)
  | joining (task : Task) (windowEnd : Instant) (rounds : Nat)
  | naming (sendAt : Instant)
  | storing (task : Task)
  | finished (result : Except EnqueueError TaskId)

namespace Intake

variable (q : Queue) (r : Request)

def look (windowEnd : Instant) : Nat → Intake
  | 0 => naming windowEnd
  | rounds + 1 => looking windowEnd rounds

/-- How the work goes on with the time of sending. -/
def dated (sendAt : Instant) : Intake :=
  if q.config.concat.enabled then
    match q.windowEnd sendAt with
    | .error e => finished (.error e)
    | .ok windowEnd => look windowEnd maxAppendRounds
  else naming sendAt

def begin : Intake :=
  if !r.mail.hasBody then finished (.error (.refused .missingBody))
  else if !r.mail.recipient.valid then finished (.error (.refused .invalidRecipient))
  else
    match r.sendAt with
    | some t => dated q t
    | none => dating

/-- How the work goes on with the answer to a look-up. -/
def looked (windowEnd : Instant) (rounds : Nat) : Except StoreError (Option Task) → Intake
  | .error e => finished (.error (.refused (.storage e)))
  | .ok none => naming windowEnd
  | .ok (some task) =>
    if task.fragments.any fun m => m.equivalent r.mail then finished (.ok task.id)
    else joining task windowEnd rounds

/-- How the work goes on after the writing of the joined mails. -/
def joined (task : Task) (windowEnd : Instant) (rounds : Nat) : Except StoreError Bool → Intake
  | .error e => finished (.error (.refused (.storage e)))
  | .ok true => finished (.ok task.id)
  | .ok false => look windowEnd rounds

/-- The task that a request opens. -/
def fresh (id : TaskId) (sendAt : Instant) : Task :=
  { Task.new id r.mail sendAt with template := r.template, concatSubject := r.concatSubject }

/-- How the work ends after the storing of a task. -/
def stored (task : Task) : Except StoreError Unit → Except EnqueueError TaskId
  | .error e => .error (.refused (.storage e))
  | .ok () => .ok task.id

def conclude (windowEnd : Instant) :
    Except StoreError (Option TaskId) → Work (Except EnqueueError TaskId)
  | .error e => return .error (.refused (.storage e))
  | .ok (some id) => return .ok id
  | .ok none => openTask r windowEnd

def carryOut (sendAt : Instant) : Work (Except EnqueueError TaskId) :=
  if q.config.concat.enabled then
    match q.windowEnd sendAt with
    | .error e => return .error e
    | .ok windowEnd => do conclude r windowEnd (← concatenate r.mail windowEnd maxAppendRounds)
  else openTask r sendAt

def work : Intake → Work (Except EnqueueError TaskId)
  | dating => do carryOut q r (← askNow)
  | looking windowEnd rounds => do
    conclude r windowEnd (← concatenate r.mail windowEnd (rounds + 1))
  | joining task windowEnd rounds => do
    match ← call (.mutate task.id (appendPatch task r.mail)) with
    | .error e => return .error (.refused (.storage e))
    | .ok true => return .ok task.id
    | .ok false => conclude r windowEnd (← concatenate r.mail windowEnd rounds)
  | naming sendAt => openTask r sendAt
  | storing task => do return stored task (← call (.insert task))
  | finished result => return result

inductive Advance : Intake → (a : Ask) → a.Answer → Intake → Prop where
  | dated (now : Instant) : Advance dating .now now (dated q now)
  | looked (windowEnd : Instant) (rounds : Nat) (answer : Except StoreError (Option Task)) :
      Advance (looking windowEnd rounds) (.store (.find r.mail.recipient windowEnd)) answer
        (looked r windowEnd rounds answer)
  | joined (task : Task) (windowEnd : Instant) (rounds : Nat) (answer : Except StoreError Bool) :
      Advance (joining task windowEnd rounds)
        (.store (.mutate task.id (appendPatch task r.mail))) answer
        (joined task windowEnd rounds answer)
  | named (sendAt : Instant) (id : TaskId) :
      Advance (naming sendAt) .freshId id (storing (fresh r id sendAt))
  | stored (task : Task) (answer : Except StoreError Unit) :
      Advance (storing task) (.store (.insert task)) answer (finished (stored task answer))

variable {q r}

theorem work_look (windowEnd : Instant) (rounds : Nat) :
    (look windowEnd rounds).work q r =
      (do conclude r windowEnd (← concatenate r.mail windowEnd rounds)) := by
  cases rounds <;> rfl

theorem work_dated (sendAt : Instant) : (dated q sendAt).work q r = carryOut q r sendAt := by
  unfold dated carryOut
  split
  · rcases q.windowEnd sendAt with e | windowEnd
    · rfl
    · exact work_look windowEnd maxAppendRounds
  · rfl

theorem conclude_eq (windowEnd : Instant) (o : Except StoreError (Option TaskId)) :
    conclude r windowEnd o =
      match o with
      | .error e => return .error (.refused (.storage e))
      | .ok (some id) => return .ok id
      | .ok none => openTask r windowEnd := by
  rcases o with e | _ | id <;> rfl

theorem work_begin : (begin q r).work q r = q.enqueue r := by
  unfold begin enqueue
  cases r.mail.hasBody with
  | false => rfl
  | true =>
    cases r.mail.recipient.valid with
    | false => rfl
    | true =>
      simp only [Bool.not_true, Bool.false_eq_true, if_false]
      -- the end of the window is made opaque: a check by computation would go into its arithmetic
      rcases r.sendAt with _ | t
      · refine bind_congr fun t => ?_
        unfold carryOut
        generalize q.windowEnd t = o
        rcases o with e | windowEnd
        · rfl
        · exact if_congr Iff.rfl (bind_congr fun o => conclude_eq windowEnd o) rfl
      · refine (work_dated t).trans (Eq.trans ?_ (pure_bind t _).symm)
        unfold carryOut
        generalize q.windowEnd t = o
        rcases o with e | windowEnd
        · rfl
        · exact if_congr Iff.rfl (bind_congr fun o => conclude_eq windowEnd o) rfl

theorem follow {d : Intake} {a : Ask} {next : a.Answer → Work (Except EnqueueError TaskId)}
    (h : d.work q r = .ask a next) (x : a.Answer) :
    ∃ e, Advance q r d a x e ∧ next x = e.work q r := by
  cases d with
  | dating => cases h; exact ⟨_, .dated x, (work_dated x).symm⟩
  | looking windowEnd rounds =>
    cases h
    refine ⟨_, .looked windowEnd rounds x, ?_⟩
    rcases x with e | _ | task
    · rfl
    · rfl
    · simp only [looked, bind, pure, Program.bind]
      cases task.fragments.any fun m => m.equivalent r.mail with
      | true => rfl
      | false =>
        refine congrArg (Program.ask _) (funext fun answer => ?_)
        rcases answer with e | _ | _ <;> rfl
  | joining task windowEnd rounds =>
    cases h
    refine ⟨_, .joined task windowEnd rounds x, ?_⟩
    rcases x with e | _ | _
    · rfl
    · exact (work_look windowEnd rounds).symm
    · rfl
  | naming sendAt =>
    cases h
    refine ⟨_, .named sendAt x, congrArg (Program.ask _) (funext fun answer => ?_)⟩
    rcases answer with e | _ <;> rfl
  | storing task => cases h; exact ⟨_, .stored task x, rfl⟩
  | finished result => cases h

theorem course {l : List (Exchange Ask Ask.Answer)} {p : Work (Except EnqueueError TaskId)}
    (h : Program.Path (q.enqueue r) l p) :
    ∃ d, Course (Advance q r) (begin q r) l d ∧ p = d.work q r := by
  rw [← work_begin] at h
  exact course_of_path follow h

end Intake

namespace Queue

/-! ### The short jobs -/

/-- What is left of listing the due tasks after its first question. -/
def listAt (now : Instant) : Work (Option (Instant × List Store.Due)) := do
  match ← call (.due now) with
  | .error _ => return none
  | .ok due => return some (now, due)

theorem listing {q : Queue} {l : List (Exchange Ask Ask.Answer)}
    {p : Work (Option (Instant × List Store.Due))} (h : Program.Path q.dueNow l p) :
    (l = [] ∧ p = .ask .now listAt) ∨ (∃ now, l = [⟨.now, now⟩] ∧ p = listAt now) ∨
      ∃ o, p = .done o ∧ (l = [] ∨ ∃ now a, l = [⟨.now, now⟩, ⟨.store (.due now), a⟩]) ∧
        ∀ now due, o = some (now, due) → l = [⟨.now, now⟩, ⟨.store (.due now), .ok due⟩] := by
  induction h with
  | refl =>
    unfold dueNow
    cases q.config.mode.isConsumer with
    | false => exact .inr (.inr ⟨none, rfl, .inl rfl, by simp⟩)
    | true => exact .inl ⟨rfl, rfl⟩
  | snoc _ a ih =>
    rcases ih with ⟨rfl, hp⟩ | ⟨now, rfl, hp⟩ | ⟨o, hp, -⟩
    · cases hp
      exact .inr (.inl ⟨a, rfl, rfl⟩)
    · cases hp
      refine .inr (.inr ?_)
      rcases a with e | due
      · exact ⟨none, rfl, .inr ⟨now, .error e, rfl⟩, by simp⟩
      · refine ⟨some (now, due), rfl, .inr ⟨now, .ok due, rfl⟩, fun now' due' ho => ?_⟩
        cases ho
        rfl
    · cases hp

lemma asked_of_listing {q : Queue} {l : List (Exchange Ask Ask.Answer)}
    {p : Work (Option (Instant × List Store.Due))} (h : Program.Path q.dueNow l p)
    {x : Exchange Ask Ask.Answer} (hx : x ∈ l) :
    (∃ now, x = ⟨.now, now⟩) ∨ ∃ now a, x = ⟨.store (.due now), a⟩ := by
  rcases listing h with ⟨rfl, -⟩ | ⟨now, rfl, -⟩ | ⟨o, -, rfl | ⟨now, a, rfl⟩, -⟩
  · cases hx
  · exact .inl ⟨now, List.mem_singleton.1 hx⟩
  · cases hx
  · rcases List.mem_pair.1 hx with hx | hx
    · exact .inl ⟨now, hx⟩
    · exact .inr ⟨now, a, hx⟩

lemma due_unique_of_listing {q : Queue} {l : List (Exchange Ask Ask.Answer)}
    {p : Work (Option (Instant × List Store.Due))} (h : Program.Path q.dueNow l p)
    {now now' : Instant} {a a' : Except StoreError (List Store.Due)}
    (hx : ⟨.store (.due now), a⟩ ∈ l) (hx' : ⟨.store (.due now'), a'⟩ ∈ l) : a = a' := by
  rcases listing h with ⟨rfl, -⟩ | ⟨_, rfl, -⟩ | ⟨o, -, rfl | ⟨_, _, rfl⟩, -⟩
  · cases hx
  · cases List.mem_singleton.1 hx
  · cases hx
  · rcases List.mem_pair.1 hx with h₁ | h₁ <;> rcases List.mem_pair.1 hx' with h₂ | h₂ <;>
      cases h₁ <;> cases h₂
    rfl

theorem cancelling {id : TaskId} {l : List (Exchange Ask Ask.Answer)} {p : Work Bool}
    (h : Program.Path (Queue.cancel id) l p) :
    (l = [] ∧ p = Queue.cancel id) ∨
      ∃ a b, l = [⟨.store (.cancel id), a⟩] ∧ p = .done b ∧ (b = true ↔ a = .ok true) := by
  induction h with
  | refl => exact .inl ⟨rfl, rfl⟩
  | snoc _ a ih =>
    rcases ih with ⟨rfl, hp⟩ | ⟨a', b, -, hp, -⟩
    · cases hp
      rcases a with e | b
      · exact .inr ⟨.error e, false, rfl, rfl, by simp⟩
      · exact .inr ⟨.ok b, b, rfl, rfl, by simp⟩
    · cases hp

end Queue

end MailQueue

namespace MailQueue.Intake

open Queue Fleet

variable {q : Queue} {r : Request} {l : List Fleet.Exchange} {d e : Intake} {id : TaskId} {a : Ask}
  {x : a.Answer}

/-- No task was chosen yet, or the request was refused. -/
def early : Intake → Bool
  | dating | looking .. | naming _ | finished (.error _) => true
  | _ => false

def ready? : Intake → Option Task
  | storing task => some task
  | _ => none

lemma early_look (w : Instant) (rounds : Nat) : (look w rounds).early = true := by
  cases rounds <;> rfl

lemma early_dated (sendAt : Instant) : (dated q sendAt).early = true := by
  unfold dated
  split
  · split
    · rfl
    · exact early_look _ _
  · rfl

lemma early_begin : (begin q r).early = true := by
  unfold begin
  split
  · rfl
  · split
    · rfl
    · split
      · exact early_dated _
      · rfl

lemma ready?_of_early (h : d.early = true) : d.ready? = none := by
  cases d with
  | storing => cases h
  | _ => rfl

lemma joined_eq (task : Task) (w : Instant) (rounds : Nat) (o : Except StoreError Bool) :
    (joined task w rounds o).early = true ∨
      o = .ok true ∧ joined task w rounds o = finished (.ok task.id) := by
  rcases o with e | _ | _
  · exact .inl rfl
  · exact .inl (early_look _ _)
  · exact .inr ⟨rfl, rfl⟩

lemma looked_eq (w : Instant) (rounds : Nat) (o : Except StoreError (Option Task)) :
    (looked r w rounds o).early = true ∨
      ∃ task, o = .ok (some task) ∧ (looked r w rounds o = joining task w rounds ∧
          (∀ m ∈ task.fragments, m.equivalent r.mail = false) ∨
        looked r w rounds o = finished (.ok task.id) ∧
          ∃ m ∈ task.fragments, m.equivalent r.mail = true) := by
  rcases o with e | _ | task
  · exact .inl rfl
  · exact .inl rfl
  · refine .inr ⟨task, rfl, ?_⟩
    simp only [looked]
    split
    · next h => exact .inr ⟨rfl, by simpa using h⟩
    · next h => exact .inl ⟨rfl, by simpa using h⟩

lemma ready?_looked (w : Instant) (rounds : Nat) (o : Except StoreError (Option Task)) :
    (looked r w rounds o).ready? = none := by
  rcases looked_eq (r := r) w rounds o with h | ⟨task, -, ⟨h, -⟩ | ⟨h, -⟩⟩
  · exact ready?_of_early h
  · rw [h]; rfl
  · rw [h]; rfl

lemma ready?_joined (task : Task) (w : Instant) (rounds : Nat) (o : Except StoreError Bool) :
    (joined task w rounds o).ready? = none := by
  rcases joined_eq task w rounds o with h | ⟨-, h⟩
  · exact ready?_of_early h
  · rw [h]; rfl

/-- A request is over once it has tried to store its task. -/
def ended : Intake → Bool
  | finished _ => true
  | _ => false

lemma Advance.not_ended (h : Advance q r d a x e) : d.ended = false := by
  cases h <;> rfl

/-- Until a request is over it has stored nothing, and it was given one identifier at most: that of
the task it is about to store. -/
lemma fresh_of_course (h : Course (Advance q r) (begin q r) l d) (hd : d.ended = false) :
    (∀ id, ∀ x ∈ l, inserts id x = false) ∧ l.filterMap fresh? = (d.ready?.map Task.id).toList ∧
      ∀ task, d.ready? = some task → ∃ id sendAt, task = fresh r id sendAt := by
  induction h with
  | refl => simp [ready?_of_early (early_begin (q := q) (r := r))]
  | @snoc l d e a x h step ih =>
    obtain ⟨hi, hf, -⟩ := ih step.not_ended
    -- a step that names no task leaves both lists as they are
    have keep : (∀ id, inserts id ⟨a, x⟩ = false) → fresh? ⟨a, x⟩ = none → d.ready? = none →
        e.ready? = none → (∀ id, ∀ y ∈ l ++ [⟨a, x⟩], inserts id y = false) ∧
          List.filterMap fresh? (l ++ [⟨a, x⟩]) = (e.ready?.map Task.id).toList ∧
          ∀ task, e.ready? = some task → ∃ id sendAt, task = fresh r id sendAt := by
      intro hx hy hr he
      refine ⟨fun id y hm => ?_, by simp [hf, hy, hr, he], by simp [he]⟩
      rcases List.mem_append.1 hm with hm | hm
      · exact hi id y hm
      · rw [List.mem_singleton.1 hm]
        exact hx id
    cases step with
    | dated now => exact keep (fun _ => rfl) rfl rfl (ready?_of_early (early_dated now))
    | looked w rounds o => exact keep (fun _ => rfl) rfl rfl (ready?_looked w rounds o)
    | joined task w rounds o =>
      exact keep (fun _ => by rcases o with _ | _ | _ <;> rfl) rfl rfl
        (ready?_joined task w rounds o)
    | named sendAt id =>
      refine ⟨fun id' y hm => ?_, ?_, fun task ht => ⟨id, sendAt, (Option.some.inj ht).symm⟩⟩
      · rcases List.mem_append.1 hm with hm | hm
        · exact hi id' y hm
        · rw [List.mem_singleton.1 hm]
          rfl
      · rw [List.filterMap_append, hf]
        rfl
    | stored => cases hd

lemma inserts_fresh (r : Request) (id : TaskId) (sendAt : Instant) :
    inserts id ⟨.store (.insert (fresh r id sendAt)),
      (Except.ok () : Except StoreError Unit)⟩ = true := by
  simp [inserts, fresh, Task.new]

lemma inserts_of_course (h : Course (Advance q r) (begin q r) l d) {x : Fleet.Exchange}
    (hx : x ∈ l) (hi : inserts id x = true) : l.filterMap fresh? = [id] := by
  induction h with
  | refl => cases hx
  | @snoc l d e a y h step ih =>
    obtain ⟨hn, hf, -⟩ := fresh_of_course h step.not_ended
    rcases List.mem_append.1 hx with hx | hx
    · rw [hn id x hx] at hi
      cases hi
    · rw [List.mem_singleton.1 hx] at hi
      cases step with
      | stored task answer =>
        rcases answer with _ | _
        · cases hi
        · obtain rfl : task.id = id := by simpa [inserts] using hi
          rw [List.filterMap_append, hf]
          rfl
      | joined _ _ _ y => rcases y with _ | _ | _ <;> cases hi
      | _ => cases hi

lemma eq_fresh_of_storing {task : Task}
    (h : Course (Advance q r) (begin q r) l (storing task)) :
    ∃ id sendAt, task = fresh r id sendAt :=
  (fresh_of_course h rfl).2.2 task rfl

lemma last_of_not_early (h : Course (Advance q r) (begin q r) l e) (he : e.early = false) :
    ∃ l' d, ∃ x : Fleet.Exchange, l = l' ++ [x] ∧ Course (Advance q r) (begin q r) l' d ∧
      Advance q r d x.1 x.2 e := by
  cases h with
  | refl =>
    rw [early_begin] at he
    cases he
  | snoc h step => exact ⟨_, _, _, rfl, h, step⟩

/-- A task that is to be joined was found, and holds no mail to the same effect. -/
lemma found_of_joining {task : Task} {w : Instant} {rounds : Nat}
    (h : Course (Advance q r) (begin q r) l (joining task w rounds)) :
    ⟨.store (.find r.mail.recipient w),
      (Except.ok (some task) : Except StoreError (Option Task))⟩ ∈ l ∧
      ∀ m ∈ task.fragments, m.equivalent r.mail = false := by
  obtain ⟨l', d, ⟨a, x⟩, rfl, -, step⟩ := last_of_not_early h rfl
  generalize he : joining task w rounds = e at step
  cases step with
  | dated =>
    have := early_dated (q := q) x
    rw [← he] at this
    cases this
  | looked w' rounds' =>
    rcases looked_eq (r := r) w' rounds' x with hy | ⟨found, rfl, ⟨hy, hnew⟩ | ⟨hy, -⟩⟩
    · rw [← he] at hy
      cases hy
    · rw [← he] at hy
      cases hy
      exact ⟨by simp, hnew⟩
    · rw [← he] at hy
      cases hy
  | joined task' w' rounds' =>
    rcases joined_eq task' w' rounds' x with hy | ⟨-, hy⟩ <;> rw [← he] at hy <;> cases hy
  | named => cases he
  | stored => cases he

/-- The answer with which a request ends well, in the state in which it is given. -/
inductive Ending (r : Request) (id : TaskId) : Intake → Fleet.Exchange → Prop where
  | found {w : Instant} {rounds : Nat} {task : Task} {m : Mail} (hid : task.id = id)
      (hm : m ∈ task.fragments) (he : m.equivalent r.mail = true) :
      Ending r id (looking w rounds) ⟨.store (.find r.mail.recipient w),
        (Except.ok (some task) : Except StoreError (Option Task))⟩
  | joined {task : Task} {w : Instant} {rounds : Nat} (hid : task.id = id) :
      Ending r id (joining task w rounds) ⟨.store (.mutate id (appendPatch task r.mail)),
        (Except.ok true : Except StoreError Bool)⟩
  | opened (sendAt : Instant) :
      Ending r id (storing (fresh r id sendAt))
        ⟨.store (.insert (fresh r id sendAt)), (Except.ok () : Except StoreError Unit)⟩

lemma ending_of_course (h : Course (Advance q r) (begin q r) l (finished (.ok id))) :
    ∃ l' d x, l = l' ++ [x] ∧ Course (Advance q r) (begin q r) l' d ∧ Ending r id d x := by
  obtain ⟨l', d, ⟨a, x⟩, rfl, hd, step⟩ := last_of_not_early h rfl
  refine ⟨l', d, _, rfl, hd, ?_⟩
  generalize he : finished (.ok id) = e at step
  cases step with
  | dated =>
    have := early_dated (q := q) x
    rw [← he] at this
    cases this
  | looked w' rounds' =>
    rcases looked_eq (r := r) w' rounds' x with hy | ⟨found, rfl, ⟨hy, -⟩ | ⟨hy, m, hm, hq⟩⟩
    · rw [← he] at hy
      cases hy
    · rw [← he] at hy
      cases hy
    · rw [← he] at hy
      cases hy
      exact .found rfl hm hq
  | joined task' w' rounds' =>
    rcases joined_eq task' w' rounds' x with hy | ⟨rfl, hy⟩ <;> rw [← he] at hy <;> cases hy
    exact .joined rfl
  | named => cases he
  | stored task =>
    obtain ⟨id', sendAt, rfl⟩ := eq_fresh_of_storing hd
    rcases x with e | u
    · cases he
    · cases he
      exact .opened sendAt

/-- The answer shows that the task of the identifier carries the mail, or one to the same effect. -/
inductive Carries (r : Request) (id : TaskId) : Fleet.Exchange → Prop where
  | found {w : Instant} {task : Task} {m : Mail} (hid : task.id = id) (hm : m ∈ task.fragments)
      (he : m.equivalent r.mail = true) :
      Carries r id ⟨.store (.find r.mail.recipient w),
        (Except.ok (some task) : Except StoreError (Option Task))⟩
  | joined {task : Task} (hid : task.id = id) :
      Carries r id ⟨.store (.mutate id (appendPatch task r.mail)),
        (Except.ok true : Except StoreError Bool)⟩
  | opened (sendAt : Instant) :
      Carries r id ⟨.store (.insert (fresh r id sendAt)), (Except.ok () : Except StoreError Unit)⟩

/-- A request that ends with an identifier has seen that task carry its mail. -/
lemma carried_of_course (h : Course (Advance q r) (begin q r) l (finished (.ok id))) :
    ∃ x ∈ l, Carries r id x := by
  obtain ⟨l', d, x, rfl, -, he⟩ := ending_of_course h
  refine ⟨x, List.mem_append_right _ (List.mem_singleton_self _), ?_⟩
  cases he with
  | found hid hm hq => exact .found hid hm hq
  | joined hid => exact .joined hid
  | opened sendAt => exact .opened sendAt

/-! ### When a request is to be sent, and what it adds -/

/-- When a request is to be sent: at the time it names, or when it was taken in. -/
def sendTime? (r : Request) (l : List Fleet.Exchange) : Option Instant :=
  r.sendAt.or (l.findSome? now?)

/-- The time of the task that a request opens: that of the request, or the end of the window in
which mails are merged. -/
def OpensAt (q : Queue) (sendAt opensAt : Instant) : Prop :=
  if q.config.concat.enabled then q.windowEnd sendAt = .ok opensAt else opensAt = sendAt

lemma windowEnd_eq_ok {t w : Instant} (h : q.windowEnd t = .ok w) :
    t.add? ((q.config.concat.delayMs.toNat * nsPerMs : Nat) : Int) = some w := by
  simp only [Queue.windowEnd] at h
  split at h
  · cases h
  · split at h
    · next hw =>
      cases h
      exact hw
    · cases h

lemma OpensAt.le {t w : Instant} (h : OpensAt q t w) : t ≤ w := by
  unfold OpensAt at h
  split at h
  · exact Instant.le_of_add? (windowEnd_eq_ok h) (Int.natCast_nonneg _)
  · rw [h]
    exact Instant.le_refl t

/-- What a state knows of the time of sending. -/
def Dated (q : Queue) (r : Request) (l : List Fleet.Exchange) : Intake → Prop
  | dating => r.sendAt = none ∧ l = []
  | looking w _ | joining _ w _ =>
    q.config.concat.enabled = true ∧ ∃ t, sendTime? r l = some t ∧ OpensAt q t w
  | naming w => ∃ t, sendTime? r l = some t ∧ OpensAt q t w
  | storing task => ∃ t, sendTime? r l = some t ∧ OpensAt q t task.sendAt
  | finished _ => True

lemma dated_look {w t : Instant} (hc : q.config.concat.enabled = true)
    (ht : sendTime? r l = some t) (hw : OpensAt q t w) (rounds : Nat) :
    Dated q r l (look w rounds) := by
  cases rounds with
  | zero => exact ⟨t, ht, hw⟩
  | succ rounds => exact ⟨hc, t, ht, hw⟩

lemma dated_dated {t : Instant} (ht : sendTime? r l = some t) : Dated q r l (dated q t) := by
  unfold dated
  cases hc : q.config.concat.enabled with
  | true =>
    rw [if_pos rfl]
    split
    · trivial
    · next w hw => exact dated_look hc ht (by rw [OpensAt, if_pos hc, hw]) _
  | false =>
    rw [if_neg (by simp)]
    exact ⟨t, ht, by simp [OpensAt, hc]⟩

lemma sendTime?_append {x : Fleet.Exchange} (hx : now? x = none) :
    sendTime? r (l ++ [x]) = sendTime? r l := by
  simp [sendTime?, List.findSome?_append, hx]

lemma dated_of_course (h : Course (Advance q r) (begin q r) l d) : Dated q r l d := by
  induction h with
  | refl =>
    unfold begin
    split
    · trivial
    · split
      · trivial
      · split
        · next t ht => exact dated_dated (by simp [sendTime?, ht])
        · next ht => exact ⟨ht, rfl⟩
  | @snoc l d e a x h step ih =>
    cases step with
    | dated now =>
      obtain ⟨hr, rfl⟩ := ih
      exact dated_dated (by simp [sendTime?, hr, now?])
    | looked w rounds o =>
      obtain ⟨hc, t, ht, hw⟩ := ih
      rw [← sendTime?_append (x := ⟨.store (.find r.mail.recipient w), o⟩) rfl] at ht
      rcases o with e | _ | task
      · trivial
      · exact ⟨t, ht, hw⟩
      · simp only [looked]
        split
        · trivial
        · exact ⟨hc, t, ht, hw⟩
    | joined task w rounds o =>
      obtain ⟨hc, t, ht, hw⟩ := ih
      rw [← sendTime?_append (x := ⟨.store (.mutate task.id (appendPatch task r.mail)), o⟩) rfl]
        at ht
      rcases o with e | _ | _
      · trivial
      · exact dated_look hc ht hw rounds
      · trivial
    | named sendAt id =>
      obtain ⟨t, ht, hw⟩ := ih
      exact ⟨t, (sendTime?_append (x := ⟨.freshId, id⟩) rfl).trans ht, hw⟩
    | stored => trivial

lemma adds_of_course (h : Course (Advance q r) (begin q r) l d) (hd : d.ended = false) :
    ∀ x ∈ l, adds x = false := by
  induction h with
  | refl => simp
  | @snoc l d e a x h step ih =>
    intro y hy
    rcases List.mem_append.1 hy with hy | hy
    · exact ih step.not_ended y hy
    · rw [List.mem_singleton.1 hy]
      cases step with
      | dated | looked | named => rfl
      | stored => cases hd
      | joined task w rounds o =>
        rcases o with e | _ | _
        · rfl
        · rfl
        · cases hd

end MailQueue.Intake

import MailQueue.Proofs.Depot.Commands
import MailQueue.Proofs.Depot.Stage
import MailQueue.Proofs.Fleet.Attempt
import MailQueue.Proofs.Fleet.Intake

/-!
# The calls of a job

Which calls of the store a job may make, by what its calls have returned so far, and what that means
for the commands that were answered.

* `Permits` says what a call supposes: a claim is the first word on a task, only an owner resolves,
  and a task is stored once, under an identifier that was handed out;
* `permits`: the jobs of a queue keep to it;
* `At` says that a job is in the middle of a call, with `at_of_asks`, and what is known of it then:
  `At.holds`, `At.pending`, `At.sends`.
-/

namespace MailQueue.Depot

open KeyValue Interleaving

variable {d : Depot} {id : TaskId} {call : Store.Call} {l : List Fleet.Exchange}

/-! ### What a call supposes -/

def Unresolved (l : List Fleet.Exchange) : Prop :=
  ∀ (call : Store.Call) (answer : call.Answer), ⟨.store call, answer⟩ ∈ l → resolved? call = none

/-- A claim of the task was made, and nothing was resolved since. -/
def Owns (id : TaskId) (l : List Fleet.Exchange) : Prop :=
  (∃ p, claimed? (.mutate id p) = some id ∧
    ⟨.store (.mutate id p), (Except.ok true : Except StoreError Bool)⟩ ∈ l) ∧ Unresolved l

/-- The identifier was handed out, and nothing was stored since. -/
def Named (id : TaskId) (l : List Fleet.Exchange) : Prop :=
  ⟨.freshId, id⟩ ∈ l ∧
    ∀ (call : Store.Call) (answer : call.Answer), ⟨.store call, answer⟩ ∈ l → inserted? call = none

/-- What a call supposes of those before it. -/
structure Permits (l : List Fleet.Exchange) (call : Store.Call) : Prop where
  claims : ∀ id, claimed? call = some id →
    (∃ previous attempts, call = .mutate id (.claim previous attempts)) ∧ Unresolved l
  resolves : ∀ id, resolved? call = some id → Owns id l
  inserts : ∀ id, inserted? call = some id → Named id l

theorem Permits.of_none (hc : claimed? call = none) (hr : resolved? call = none)
    (hi : inserted? call = none) : Permits l call where
  claims id h := by rw [hc] at h; cases h
  resolves id h := by rw [hr] at h; cases h
  inserts id h := by rw [hi] at h; cases h

/-! ### Taking mail in -/

section Intake

open Intake

variable {q : Queue} {r : Request} {s : Intake}

/-- As long as a request is not over it has stored nothing. -/
theorem unstored_of_course (h : Course (Advance q r) (begin q r) l s) (hs : s.ended = false) :
    ∀ (call : Store.Call) (answer : call.Answer), ⟨.store call, answer⟩ ∈ l →
      inserted? call = none := by
  induction h with
  | refl => exact fun _ _ hx => absurd hx List.not_mem_nil
  | snoc _ step ih =>
    intro call answer hx
    rcases List.mem_append.1 hx with hx | hx
    · exact ih step.not_ended call answer hx
    · have hx := List.mem_singleton.1 hx
      cases step with
      | stored => cases hs
      | dated | named => cases hx
      | looked | joined => cases hx; rfl

theorem permits_enqueue {next : call.Answer → Queue.Work (Except EnqueueError TaskId)}
    (h : Program.Path (q.enqueue r) l (.ask (.store call) next)) : Permits l call := by
  obtain ⟨s, hs, hw⟩ := Intake.course h
  cases s with
  | dating | naming | finished => cases hw
  | looking w rounds =>
    cases hw
    exact .of_none rfl rfl rfl
  | joining task w rounds =>
    cases hw
    exact .of_none rfl rfl rfl
  | storing task =>
    cases hw
    obtain ⟨-, hfresh, -⟩ := fresh_of_course hs rfl
    have hid : task.id ∈ l.filterMap Fleet.fresh? := by
      rw [hfresh]
      exact List.mem_singleton_self _
    obtain ⟨⟨a, x⟩, hx, hf⟩ := List.mem_filterMap.1 hid
    refine ⟨nofun, nofun, fun id hi => ?_⟩
    obtain rfl := Option.some.inj hi
    refine ⟨?_, unstored_of_course hs rfl⟩
    cases a with
    | freshId =>
      obtain rfl : x = task.id := Option.some.inj hf
      exact hx
    | _ => cases hf

end Intake

/-! ### The work on an entry -/

section Attempt

open Attempt Queue

variable {q : Queue} {t : Task} {s : Attempt}

/-- Work that is still to resolve its task has claimed it, and nothing else. -/
theorem owns_of_course (h : Course (Advance q t) (begin t) l s) (ht : s.took = true)
    (hp : s.pending = true) : Owns t.id l := by
  induction h with
  | refl => rw [took_begin] at ht; cases ht
  | @snoc l s s' a x h step ih =>
    -- what is no call of the store neither claims nor resolves
    have keep : Owns t.id l → (∀ call, a ≠ .store call) → Owns t.id (l ++ [⟨a, x⟩]) := by
      rintro ⟨⟨p, hp, hm⟩, hu⟩ ha
      refine ⟨⟨p, hp, List.mem_append_left _ hm⟩, fun call answer hx => ?_⟩
      rcases List.mem_append.1 hx with hx | hx
      · exact hu call answer hx
      · cases List.mem_singleton.1 hx
        exact absurd rfl (ha call)
    cases step with
    | claimed =>
      obtain rfl := eq_nil_of_claiming h
      refine ⟨⟨.claim t.attempts (nextAttempt t.attempts), rfl, by simp⟩, fun call answer hx => ?_⟩
      cases List.mem_singleton.1 hx
      rfl
    | picked | sent | timed => exact keep (ih rfl rfl) fun _ h => by cases h
    | lost => cases ht
    | removed | marked | dropped | putBack | told => cases hp

theorem permits_process {next : call.Answer → Queue.Work TaskOutcome}
    (h : Program.Path (q.process t) l (.ask (.store call) next)) : Permits l call := by
  obtain ⟨s, hs, hw⟩ := Attempt.course h
  cases s with
  | picking | sending | timing | telling | finished => cases hw
  | claiming =>
    cases hw
    obtain rfl := eq_nil_of_claiming hs
    refine ⟨fun id hid => ?_, nofun, nofun⟩
    obtain rfl := Option.some.inj hid
    exact ⟨⟨_, _, rfl⟩, fun _ _ hx => absurd hx List.not_mem_nil⟩
  | removing | dropping =>
    cases hw
    refine ⟨nofun, fun id hid => ?_, nofun⟩
    obtain rfl := Option.some.inj hid
    exact owns_of_course hs rfl rfl
  | marking | puttingBack =>
    cases hw
    refine ⟨nofun, fun id hid => ?_, nofun⟩
    obtain rfl := Option.some.inj hid
    exact owns_of_course hs rfl rfl

end Attempt

/-- A look-up supposes nothing, and what comes after it may be told without it. -/
theorem Permits.after_look {key : String} {now : Instant}
    {answer : Except StoreError (Option Task)} (h : Permits l call) :
    Permits (⟨.store (.look key now), answer⟩ :: l) call := by
  have hu : ∀ {l}, Unresolved l → Unresolved (⟨.store (.look key now), answer⟩ :: l) := by
    intro l h call a hx
    rcases List.mem_cons.1 hx with hx | hx
    · cases hx
      rfl
    · exact h call a hx
  refine ⟨fun id hid => ⟨(h.claims id hid).1, hu (h.claims id hid).2⟩, fun id hid => ?_,
    fun id hid => ?_⟩
  · obtain ⟨⟨p, hp, hm⟩, hl⟩ := h.resolves id hid
    exact ⟨⟨p, hp, List.mem_cons_of_mem _ hm⟩, hu hl⟩
  · obtain ⟨hm, hl⟩ := h.inserts id hid
    refine ⟨List.mem_cons_of_mem _ hm, fun call a hx => ?_⟩
    rcases List.mem_cons.1 hx with hx | hx
    · cases hx
      rfl
    · exact hl call a hx

theorem permits_handle {q : Queue} {now : Instant} {due : Store.Due}
    {next : call.Answer → Queue.Work (Option TaskOutcome)}
    (h : Program.Path (handle q now due) l (.ask (.store call) next)) : Permits l call := by
  have hprocess : ∀ {t l next}, Program.Path ((q.process t).bind fun o => .done (some o)) l
      (.ask (.store call) next) → Permits l call := by
    intro t l next h
    obtain ⟨p, hp, hw⟩ := h.of_bind_done
    cases p with
    | done => cases hw
    | ask a k =>
      obtain ⟨rfl, -⟩ := Program.ask.inj hw
      exact permits_process hp
  have hdone : ∀ {l next} {o : Option TaskOutcome},
      Program.Path (.done o) l (.ask (.store call) next) → Permits l call := by
    intro l next o h
    cases h.of_done.2
  cases due with
  | task t => exact hprocess h
  | unreadable e => exact hdone (o := some .skipped) h
  | mark key =>
    rcases h.of_ask with ⟨rfl, hw⟩ | ⟨answer, l', rfl, hrest⟩
    · obtain ⟨hq, -⟩ := Program.ask.inj hw
      cases hq
      exact .of_none rfl rfl rfl
    · rcases answer with e | _ | t
      · exact (hdone (o := some .skipped) hrest).after_look
      · exact (hdone (o := none) hrest).after_look
      · exact (hprocess hrest).after_look

/-- **A job keeps to what its calls suppose.** -/
theorem permits {j : Job} {next : call.Answer → Queue.Work j.Result}
    (h : Program.Path (j.work d) l (.ask (.store call) next)) : Permits l call := by
  obtain ⟨i, duty⟩ := j
  cases duty with
  | enqueue r => exact permits_enqueue h
  | cancel id =>
    rcases Queue.cancelling h with ⟨-, hp⟩ | ⟨a, b, -, hp, -⟩ <;> cases hp
    exact .of_none rfl rfl rfl
  | list =>
    rcases Queue.listing h with ⟨-, hp⟩ | ⟨now, -, hp⟩ | ⟨o, hp, -⟩ <;> cases hp
    exact .of_none rfl rfl rfl
  | entry tick now due => exact permits_handle h

/-! ### In the middle of a call -/

/-- The job of this number is in the middle of a call, with what is left of it. -/
def At (d : Depot) (s : State) (n : Nat) (call : Store.Call) (rest : KeyValue.Work call.Answer) :
    Prop :=
  ∃ (j : Job) (w : Work j.Result) (next : call.Answer → Queue.Work j.Result),
    s.threads[n]? = some ⟨j, w⟩ ∧
      Course (Stage.Advance d) (.enter d (j.work d)) (s.past n) (.calling call next rest)

/-- The identifier was handed out, and no task was stored under it. -/
def Pending (id : TaskId) (l : List Exchange) : Prop :=
  ⟨.own .freshId, id⟩ ∈ l ∧ ∀ x ∈ l, writesFor inserted? id x = false

variable {s : State} {x₀ : Shared} {n : Nat} {rest : KeyValue.Work call.Answer}

theorem at_of_asks (hr : Run d.rules { shared := x₀ } s) {j : Job} {q : Ask}
    {next : q.Answer → Work j.Result} (asks : s.threads[n]? = some ⟨j, .ask q next⟩) :
    (∀ call c, q = .command call c → ∃ rest, At d s n call (.ask c rest)) ∧
      ∀ call answer, q = .returned call answer → At d s n call (.done answer) := by
  obtain ⟨st, hst, hw⟩ := Stage.course (hr.path asks)
  cases st with
  | asking q' hq k =>
    obtain ⟨rfl, -⟩ := Program.ask.inj hw
    constructor <;> (intro _ _ h; cases h)
  | finished => cases hw
  | calling call k rest =>
    cases rest with
    | done answer =>
      obtain ⟨rfl, -⟩ := Program.ask.inj hw
      refine ⟨fun _ _ h => (by cases h), fun call' answer' h => ?_⟩
      cases h
      exact ⟨j, _, k, asks, hst⟩
    | ask c rest =>
      obtain ⟨rfl, -⟩ := Program.ask.inj hw
      refine ⟨fun call' c' h => ?_, fun _ _ h => (by cases h)⟩
      cases h
      exact ⟨rest, j, _, k, asks, hst⟩

namespace At

theorem permits (h : At d s n call rest) : Permits (outline (s.past n)) call := by
  obtain ⟨j, w, next, -, hst⟩ := h
  exact Depot.permits (Stage.path_of_course hst)

theorem path (h : At d s n call rest) :
    Program.Path (d.client.answer call) (underWay (s.past n)) rest := by
  obtain ⟨j, w, next, -, hst⟩ := h
  exact Stage.rest_of_course hst

theorem sends {c : Command} {rest : c.Answer → KeyValue.Work call.Answer}
    (h : At d s n call (.ask c rest)) : Sends d call c :=
  (sends_of_path h.path).1

/-- A write of a kind of which no call has returned was made by the call under way. -/
theorem unwritten (h : At d s n call rest) {kind : Store.Call → Option TaskId}
    (hk : ∀ (call : Store.Call) (answer : call.Answer), ⟨.store call, answer⟩ ∈ outline (s.past n) →
      kind call = none)
    (hcall : kind call = none ∨ ∀ x ∈ underWay (s.past n), wrote x.1 x.2 = false) :
    ∀ x ∈ s.past n, writesFor kind id x = false := by
  obtain ⟨j, w, next, -, hst⟩ := h
  rintro ⟨q, a⟩ hx
  cases q with
  | own | returned => rfl
  | command call' c =>
    rcases Stage.command_of_course hst hx with ⟨answer, ho⟩ | ⟨hc, hu⟩
    · simp [writesFor, hk call' answer ho]
    · obtain rfl := Option.some.inj hc
      rcases hcall with hnone | hsent
      · simp [writesFor, hnone]
      · simp [writesFor, hsent _ hu]

section Asks

variable {c : Command} {rest : c.Answer → KeyValue.Work call.Answer}

theorem holds (h : At d s n call (.ask c rest)) (hr : resolved? call = some id) :
    Holds id (s.past n) := by
  obtain ⟨⟨p, hp, hm⟩, hu⟩ := h.permits.resolves id hr
  refine ⟨?_, h.unwritten hu (.inr (sends_of_path h.path).2)⟩
  obtain ⟨j, w, next, -, hst⟩ := h
  obtain ⟨commands, hpath, hall⟩ := Stage.returned_of_course hst hm
  obtain ⟨⟨c', a⟩, hx, hw⟩ := wrote_of_claim hpath
  exact ⟨_, hall c' a hx, by simp [writesFor, hp, hw]⟩

theorem pending (h : At d s n call (.ask c rest)) (hi : inserted? call = some id) :
    Pending id (s.past n) := by
  obtain ⟨hm, hu⟩ := h.permits.inserts id hi
  exact ⟨Stage.own_of_outline (fun _ h => by cases h) hm,
    h.unwritten hu (.inr (sends_of_path h.path).2)⟩

end Asks

/-- Whose claim returns with yes holds the task. -/
theorem holds_of_claim {p : Patch} (h : At d s n (.mutate id p) (.done (.ok true)))
    (hc : claimed? (.mutate id p) = some id) : Holds id (s.past n) := by
  obtain ⟨⟨previous, attempts, he⟩, hu⟩ := h.permits.claims id hc
  have hnone : resolved? (.mutate id p) = none := by
    obtain ⟨-, rfl⟩ := Store.Call.mutate.inj he
    rfl
  refine ⟨?_, h.unwritten hu (.inl hnone)⟩
  obtain ⟨⟨c, a⟩, hx, hw⟩ := wrote_of_claim h.path
  obtain ⟨j, w, next, -, hst⟩ := h
  exact ⟨_, Stage.mem_of_underWay hst rfl hx, by simp [writesFor, hc, hw]⟩

end At

end MailQueue.Depot

import MailQueue.Proofs.Depot.Basic

/-!
# Work at the grain of commands, step by step

The work of a queue with its calls drawn out, as a machine: either the queue asks something of its
own, or a call is under way.

* `Stage.work` is the work that is left, with `work_enter` for the whole of it;
* `Stage.Advance` says where an answer leads, and `Stage.course` follows what was asked and
  answered;
* `path_of_course`: the outline of what was asked is a path of the queue's own work, and
  `rest_of_course`: the commands under way are a path of the call under way;
* `returned_of_course` and `command_of_course` tell of which calls the commands were.
-/

namespace MailQueue.Depot

open KeyValue

variable {α : Type}

/-! ### Outline -/

section Outline

variable (l : List Exchange)

@[simp] theorem outline_nil : outline [] = [] := rfl

@[simp] theorem underWay_nil : underWay [] = [] := rfl

theorem outline_own (q : Queue.Ask) (a : q.Answer) :
    outline (l ++ [⟨.own q, a⟩]) = outline l ++ [⟨q, a⟩] := by
  simp [outline, List.filterMap_append]

theorem outline_command (call : Store.Call) (c : Command) (a : c.Answer) :
    outline (l ++ [⟨.command call c, a⟩]) = outline l := by
  simp [outline, List.filterMap_append]

theorem outline_returned (call : Store.Call) (answer : call.Answer) (a : Unit) :
    outline (l ++ [⟨.returned call answer, a⟩]) = outline l ++ [⟨.store call, answer⟩] := by
  simp [outline, List.filterMap_append]

theorem underWay_own (q : Queue.Ask) (a : q.Answer) : underWay (l ++ [⟨.own q, a⟩]) = [] := by
  simp [underWay, List.foldl_append]

theorem underWay_command (call : Store.Call) (c : Command) (a : c.Answer) :
    underWay (l ++ [⟨.command call c, a⟩]) = underWay l ++ [⟨c, a⟩] := by
  simp [underWay, List.foldl_append]

theorem underWay_returned (call : Store.Call) (answer : call.Answer) (a : Unit) :
    underWay (l ++ [⟨.returned call answer, a⟩]) = [] := by
  simp [underWay, List.foldl_append]

end Outline

/-! ### The machine -/

/-- How far work has come. -/
inductive Stage (α : Type) where
  /-- The queue asks something that is no call of the store. -/
  | asking (q : Queue.Ask) (hq : ∀ call, q ≠ .store call) (next : q.Answer → Queue.Work α)
  /-- A call is under way, with what is left of it. -/
  | calling (call : Store.Call) (next : call.Answer → Queue.Work α)
      (rest : KeyValue.Work call.Answer)
  | finished (result : α)

namespace Stage

/-- How the work goes on with what is left of the queue's own work. -/
def enter (d : Depot) : Queue.Work α → Stage α
  | .ask (.store call) next => calling call next (d.client.answer call)
  | .ask .now next => asking .now (fun _ h => nomatch h) next
  | .ask .freshId next => asking .freshId (fun _ h => nomatch h) next
  | .ask (.pick stored) next => asking (.pick stored) (fun _ h => nomatch h) next
  | .ask (.send index message) next => asking (.send index message) (fun _ h => nomatch h) next
  | .ask (.tell e) next => asking (.tell e) (fun _ h => nomatch h) next
  | .done result => finished result

/-- What is left of the queue's own work. -/
def left : Stage α → Queue.Work α
  | asking q _ next => .ask q next
  | calling call next _ => .ask (.store call) next
  | finished result => .done result

def call? : Stage α → Option Store.Call
  | calling call _ _ => some call
  | _ => none

def work (d : Depot) : Stage α → Work α
  | asking q _ next => .ask (.own q) fun a => (next a).expand d.refine
  | calling call next rest => (serve call rest).bind fun a => (next a).expand d.refine
  | finished result => .done result

inductive Advance (d : Depot) : Stage α → (q : Ask) → q.Answer → Stage α → Prop where
  | own (q : Queue.Ask) (hq : ∀ call, q ≠ .store call) (next : q.Answer → Queue.Work α)
      (a : q.Answer) : Advance d (asking q hq next) (.own q) a (enter d (next a))
  | command (call : Store.Call) (next : call.Answer → Queue.Work α) (c : Command)
      (rest : c.Answer → KeyValue.Work call.Answer) (a : c.Answer) :
      Advance d (calling call next (.ask c rest)) (.command call c) a (calling call next (rest a))
  | returned (call : Store.Call) (next : call.Answer → Queue.Work α) (answer : call.Answer)
      (a : Unit) :
      Advance d (calling call next (.done answer)) (.returned call answer) a
        (enter d (next answer))

variable {d : Depot} {p : Queue.Work α} {l : List Exchange} {st : Stage α}

theorem left_enter (p : Queue.Work α) : (enter d p).left = p := by
  cases p with
  | done => rfl
  | ask q => cases q <;> rfl

theorem work_enter (p : Queue.Work α) : (enter d p).work d = p.expand d.refine := by
  cases p with
  | done => rfl
  | ask q => cases q <;> rfl

theorem follow {st : Stage α} {q : Ask} {next : q.Answer → Work α}
    (h : st.work d = .ask q next) (a : q.Answer) :
    ∃ st', Advance d st q a st' ∧ next a = st'.work d := by
  cases st with
  | asking q hq k =>
    cases h
    exact ⟨_, .own q hq k a, (work_enter (k a)).symm⟩
  | calling call k rest =>
    cases rest with
    | done answer =>
      cases h
      exact ⟨_, .returned call k answer a, (work_enter (k answer)).symm⟩
    | ask c rest =>
      cases h
      exact ⟨_, .command call k c rest a, rfl⟩
  | finished => cases h

/-- The course of the work at the grain of commands. -/
theorem course {w : Work α} (h : Program.Path (p.expand d.refine) l w) :
    ∃ st, Course (Advance d) (enter d p) l st ∧ w = st.work d := by
  rw [← work_enter] at h
  exact course_of_path follow h

/-! ### What was asked -/

/-- The outline of what was asked is a path of the queue's own work. -/
theorem path_of_course (h : Course (Advance d) (enter d p) l st) :
    Program.Path p (outline l) st.left := by
  induction h with
  | refl =>
    rw [left_enter]
    exact .refl
  | snoc _ step ih =>
    cases step with
    | own q hq next a =>
      rw [outline_own, left_enter]
      exact ih.snoc a
    | command call next c rest a =>
      rw [outline_command]
      exact ih
    | returned call next answer a =>
      rw [outline_returned, left_enter]
      exact ih.snoc answer

theorem rest_of_enter {p : Queue.Work α} {call : Store.Call} {next : call.Answer → Queue.Work α}
    {rest : KeyValue.Work call.Answer} (h : enter d p = calling call next rest) :
    rest = d.client.answer call := by
  cases p with
  | done => cases h
  | ask q =>
    cases q with
    | store c =>
      cases h
      rfl
    | _ => cases h

/-- The commands under way are a path of the call under way. -/
theorem rest_of_course {call : Store.Call} {next : call.Answer → Queue.Work α}
    {rest : KeyValue.Work call.Answer}
    (h : Course (Advance d) (enter d p) l (calling call next rest)) :
    Program.Path (d.client.answer call) (underWay l) rest := by
  generalize hst : calling call next rest = st at h
  induction h generalizing rest with
  | refl =>
    rw [rest_of_enter hst.symm]
    exact .refl
  | snoc _ step ih =>
    cases step with
    | own q hq k a =>
      rw [underWay_own, rest_of_enter hst.symm]
      exact .refl
    | command call' k c rest' a =>
      cases hst
      rw [underWay_command]
      exact (ih rfl).snoc a
    | returned call' k answer a =>
      rw [underWay_returned, rest_of_enter hst.symm]
      exact .refl

theorem mem_of_underWay {call : Store.Call} (h : Course (Advance d) (enter d p) l st)
    (hst : st.call? = some call) {c : Command} {a : c.Answer} (hx : ⟨c, a⟩ ∈ underWay l) :
    ⟨.command call c, a⟩ ∈ l := by
  induction h with
  | refl => simp at hx
  | snoc _ step ih =>
    cases step with
    | own => simp [underWay_own] at hx
    | returned => simp [underWay_returned] at hx
    | command call' k c' rest' a' =>
      obtain rfl := Option.some.inj hst
      rw [underWay_command] at hx
      rcases List.mem_append.1 hx with hx | hx
      · exact List.mem_append_left _ (ih rfl hx)
      · cases List.mem_singleton.1 hx
        simp

theorem returned_of_course (h : Course (Advance d) (enter d p) l st) {call : Store.Call}
    {answer : call.Answer} (hx : ⟨.store call, answer⟩ ∈ outline l) :
    ∃ commands, Program.Path (d.client.answer call) commands (.done answer) ∧
      ∀ c (a : c.Answer), ⟨c, a⟩ ∈ commands → ⟨.command call c, a⟩ ∈ l := by
  induction h with
  | refl => simp at hx
  | @snoc l st st' q a h step ih =>
    have old : ⟨.store call, answer⟩ ∈ outline l →
        ∃ commands, Program.Path (d.client.answer call) commands (.done answer) ∧
          ∀ c (a' : c.Answer), ⟨c, a'⟩ ∈ commands →
            (⟨.command call c, a'⟩ : Exchange) ∈ l ++ [⟨q, a⟩] := by
      intro hx
      obtain ⟨commands, hp, hm⟩ := ih hx
      exact ⟨commands, hp, fun c a' hc => List.mem_append_left _ (hm c a' hc)⟩
    cases step with
    | own q hq k a =>
      rw [outline_own] at hx
      rcases List.mem_append.1 hx with hx | hx
      · exact old hx
      · cases List.mem_singleton.1 hx
        exact absurd rfl (hq call)
    | command =>
      rw [outline_command] at hx
      exact old hx
    | returned call' k answer' a =>
      rw [outline_returned] at hx
      rcases List.mem_append.1 hx with hx | hx
      · exact old hx
      · cases List.mem_singleton.1 hx
        exact ⟨_, rest_of_course h, fun c a' hc =>
          List.mem_append_left _ (mem_of_underWay h rfl hc)⟩

/-- A command was of a call that has returned, or is of the one under way. -/
theorem command_of_course (h : Course (Advance d) (enter d p) l st) {call : Store.Call}
    {c : Command} {a : c.Answer} (hx : ⟨.command call c, a⟩ ∈ l) :
    (∃ answer, ⟨.store call, answer⟩ ∈ outline l) ∨
      st.call? = some call ∧ ⟨c, a⟩ ∈ underWay l := by
  induction h with
  | refl => cases hx
  | @snoc l st st' q a' h step ih =>
    cases step with
    | own q hq k a' =>
      rcases List.mem_append.1 hx with hx | hx
      · rcases ih hx with ⟨answer, ho⟩ | ⟨hst, -⟩
        · exact .inl ⟨answer, by rw [outline_own]; exact List.mem_append_left _ ho⟩
        · cases hst
      · cases List.mem_singleton.1 hx
    | command call' k c' rest' a' =>
      rw [outline_command, underWay_command]
      rcases List.mem_append.1 hx with hx | hx
      · exact (ih hx).imp_right fun hst => ⟨hst.1, List.mem_append_left _ hst.2⟩
      · cases List.mem_singleton.1 hx
        exact .inr ⟨rfl, by simp⟩
    | returned call' k answer' a' =>
      rcases List.mem_append.1 hx with hx | hx
      · rw [outline_returned]
        rcases ih hx with ⟨answer, ho⟩ | ⟨hst, -⟩
        · exact .inl ⟨answer, List.mem_append_left _ ho⟩
        · cases hst
          exact .inl ⟨answer', by simp⟩
      · cases List.mem_singleton.1 hx

/-- What the queue asked of its own was asked. -/
theorem own_of_outline {q : Queue.Ask} {a : q.Answer} (hq : ∀ call, q ≠ .store call)
    (hx : ⟨q, a⟩ ∈ outline l) : ⟨.own q, a⟩ ∈ l := by
  obtain ⟨x, hm, hx⟩ := List.mem_filterMap.1 hx
  split at hx
  · cases hx
    exact hm
  · cases hx
    exact absurd rfl (hq _)
  · cases hx

end Stage

end MailQueue.Depot

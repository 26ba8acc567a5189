import MailQueue.Proofs.Mirror.Basic

/-!
# Comparing and setting, step by step

`Client.updateWith` as a machine: a state is how far an update has come, and each answer of the
server leads to the next one. What an update has read and decided can be read off its state.

* `Update.work` is the work that is left, with `work_again` for a whole number of rounds;
* `Update.Advance` says where an answer leads, and `course` follows what was asked and answered.
-/

namespace MailQueue

open KeyValue KeyValue.Client

/-- What a script does to a letter. -/
structure Swap where
  /-- The text that was read. -/
  raw : String
  decision : Decision

/-- How far an update has come. The number is that of the rounds left after this one. -/
inductive Update where
  | reading (rounds : Nat)
  /-- The script is run, at first or after it was made known. -/
  | swapping (rounds : Nat) (swap : Swap) (taught : Bool)
  /-- The script is made known. -/
  | teaching (rounds : Nat) (swap : Swap)
  | finished (result : Except StoreError Bool)

namespace KeyValue.Decision

def script : Decision → Script
  | replace _ => .replace
  | remove => .remove

def letter : Decision → String
  | replace task => task.letter
  | remove => ""

def mark : Decision → String
  | replace task => markText task
  | remove => ""

end KeyValue.Decision

namespace Update

variable (c : Client) (id : TaskId) (decide : Task → Option Decision)

def command (w : Swap) : Command :=
  .run w.decision.script (c.keys.letter id) (c.keys.mark id) w.raw w.decision.letter w.decision.mark

def again : Nat → Update
  | 0 => finished (.error (.conflicts id maxRounds))
  | rounds + 1 => reading rounds

/-- How the work goes on with a letter. -/
def looked (rounds : Nat) : Option (Option String) → Update
  | none => finished (.error serverError)
  | some none => finished (.ok false)
  | some (some raw) =>
    match Task.ofLetter raw with
    | none => finished (.error .unreadable)
    | some task =>
      match decide task with
      | none => finished (.ok false)
      | some decision => swapping rounds ⟨raw, decision⟩ false

/-- How the work goes on after a script. -/
def swapped (rounds : Nat) (w : Swap) (taught : Bool) : RunResult → Update
  | .applied n => if n = 1 then finished (.ok true) else again id rounds
  | .unknown => if taught then finished (.error serverError) else teaching rounds w
  | .failed => finished (.error serverError)

/-- How the work goes on after a script was made known. -/
def taught (rounds : Nat) (w : Swap) : Option Unit → Update
  | none => finished (.error serverError)
  | some () => swapping rounds w true

def conclude (rounds : Nat) : Option Int → Work (Except StoreError Bool)
  | none => return .error serverError
  | some n => if n = 1 then return .ok true else c.updateWith id decide rounds

/-- The work when the script was made known. -/
def rerun (rounds : Nat) (w : Swap) : Work (Except StoreError Bool) := do
  match ← .question (command c id w) with
  | .applied n => conclude c id decide rounds (some n)
  | .unknown | .failed => return .error serverError

def work : Update → Work (Except StoreError Bool)
  | reading rounds => c.updateWith id decide (rounds + 1)
  | swapping rounds w false => do conclude c id decide rounds (← c.write id w.raw w.decision)
  | swapping rounds w true => rerun c id decide rounds w
  | teaching rounds w => do
    match ← .question (Command.load w.decision.script) with
    | none => return .error serverError
    | some () => rerun c id decide rounds w
  | finished result => return result

inductive Advance : Update → (q : Command) → q.Answer → Update → Prop where
  | looked (rounds : Nat) (found : Option (Option String)) :
      Advance (reading rounds) (.get (c.keys.letter id)) found (looked decide rounds found)
  | swapped (rounds : Nat) (w : Swap) (wasTaught : Bool) (result : RunResult) :
      Advance (swapping rounds w wasTaught) (command c id w) result
        (swapped id rounds w wasTaught result)
  | taught (rounds : Nat) (w : Swap) (answer : Option Unit) :
      Advance (teaching rounds w) (.load w.decision.script) answer (taught rounds w answer)

variable {c id decide}

theorem work_again (rounds : Nat) :
    (again id rounds).work c id decide = c.updateWith id decide rounds := by
  cases rounds <;> rfl

theorem work_conclude (rounds : Nat) (w : Swap) (wasTaught : Bool) (n : Int) :
    conclude c id decide rounds (some n) =
      (swapped id rounds w wasTaught (.applied n)).work c id decide := by
  simp only [conclude, swapped]
  split
  · rfl
  · exact (work_again rounds).symm

theorem write_eq (w : Swap) :
    c.write id w.raw w.decision = runScript w.decision.script (c.keys.letter id) (c.keys.mark id)
      w.raw w.decision.letter w.decision.mark := by
  cases w.decision <;> rfl

theorem work_swapping (rounds : Nat) (w : Swap) :
    (swapping rounds w false).work c id decide =
      .ask (command c id w) fun r => (swapped id rounds w false r).work c id decide := by
  rw [work, write_eq]
  refine congrArg (Program.ask _) (funext fun r => ?_)
  cases r with
  | applied n => exact work_conclude rounds w false n
  | failed => rfl
  | unknown =>
    refine congrArg (Program.ask _) (funext fun r => ?_)
    rcases r with _ | _
    · rfl
    · refine congrArg (Program.ask _) (funext fun r => ?_)
      cases r <;> rfl

theorem follow {d : Update} {q : Command} {next : q.Answer → Work (Except StoreError Bool)}
    (h : d.work c id decide = .ask q next) (x : q.Answer) :
    ∃ e, Advance c id decide d q x e ∧ next x = e.work c id decide := by
  cases d with
  | reading rounds =>
    cases h
    refine ⟨_, .looked rounds x, ?_⟩
    rcases x with _ | _ | raw
    · rfl
    · rfl
    · simp only [looked, Bind.bind, Pure.pure, Program.bind]
      rcases Task.ofLetter raw with _ | task
      · rfl
      · simp only [Program.done_bind]
        rcases decide task with _ | decision
        · rfl
        · refine congrArg (Program.bind _) (funext fun o => ?_)
          rcases o with _ | n <;> rfl
  | swapping rounds w wasTaught =>
    cases wasTaught with
    | false =>
      rw [work_swapping] at h
      cases h
      exact ⟨_, .swapped rounds w false x, rfl⟩
    | true =>
      cases h
      refine ⟨_, .swapped rounds w true x, ?_⟩
      cases x with
      | applied n => exact work_conclude rounds w true n
      | unknown => rfl
      | failed => rfl
  | teaching rounds w =>
    cases h
    refine ⟨_, .taught rounds w x, ?_⟩
    cases x <;> rfl
  | finished result => cases h

theorem finished_of_done {d : Update} {r : Except StoreError Bool}
    (h : d.work c id decide = .done r) : d = finished r := by
  cases d with
  | reading rounds => cases h
  | swapping rounds w wasTaught =>
    cases wasTaught with
    | false =>
      rw [work_swapping] at h
      cases h
    | true => cases h
  | teaching rounds w => cases h
  | finished result => exact congrArg finished (Program.done.inj h)

/-- The course of an update. -/
theorem course (rounds : Nat) {l : List (Exchange Command Command.Answer)}
    {p : Work (Except StoreError Bool)}
    (h : Program.Path (c.updateWith id decide (rounds + 1)) l p) :
    ∃ d, Course (Advance c id decide) (reading rounds) l d ∧ p = d.work c id decide :=
  course_of_path follow h

end Update

end MailQueue

import MailQueue.Proofs.Fleet.Basic
import MailQueue.Proofs.Memory

/-!
# Runs that are written down

A run of a fleet as a list of moves, which leave out what the rules determine anyway.

* `Move` is one step, `play` the state it leads to and `playAll` that of a list;
* `run_of_playAll`: what is played is a run;
* `uniform` is a fleet whose queues share their transports too.
-/

namespace MailQueue.Fleet

open Queue Interleaving

inductive Move where
  /-- The time changes. -/
  | clock (t : Instant)
  | start (queue : Nat) (duty : Duty)
  /-- The tick of this number goes on to its next task. -/
  | takeUp (tick : Nat)
  /-- The job of this number is answered in the one way there is. -/
  | reply (n : Nat)
  /-- The call of the store fails. -/
  | fault (n : Nat) (e : StoreError)
  | name (n : Nat) (id : TaskId)
  | outcome (n : Nat) (o : SendOutcome)

def minute : Instant := ⟨60000000000, by decide, by decide⟩

def hour : Instant := ⟨3600000000000, by decide, by decide⟩

variable (f : Fleet)

/-- The answer that a move gives, with what is shared afterwards. -/
def Move.answer? (i : Nat) (x : Shared) : Move → (q : Ask) → Option (q.Answer × Shared)
  | reply _, .now => some (x.clock, x)
  | reply _, .store c => some ((x.store.answer c).1, { x with store := (x.store.answer c).2 })
  | reply _, .pick stored =>
    some (((f.queue i).pool.select (x.cursor i) stored).1,
      { x with cursor :=
          Function.update x.cursor i ((f.queue i).pool.select (x.cursor i) stored).2 })
  | reply _, .tell _ => some ((), x)
  | fault _ e, .store c => some (c.failed e, x)
  | name _ id, .freshId =>
    if id ∉ x.issued then some (id, { x with issued := id :: x.issued }) else none
  | outcome _ o, .send _ _ => some (o, x)
  | _, _ => none

/-- The state after the answer that a move gives to the job of this number. -/
def respond (s : State) (mv : Move) (n : Nat) : Option State :=
  match s.threads[n]? with
  | some ⟨j, .ask q next⟩ =>
    (mv.answer? f j.queue s.shared q).map fun r => s.answered n j q r.1 next r.2
  | _ => none

def next? (s : State) (tick : Nat) : Option Job :=
  match s.threads[tick]? with
  | some ⟨⟨i, .list⟩, .done (some (_, due))⟩ =>
    match due[(hands s tick).length]? with
    | some (.task t) =>
      if (hands s tick).countP (fun th => !ended th) < max f.config.tickConcurrency 1 then
        some ⟨i, .process tick t⟩
      else none
    | _ => none
  | _ => none

def play (s : State) : Move → Option State
  | .clock t => some { s with shared := { s.shared with clock := t } }
  | .start i duty =>
    match duty with
    | .process _ _ => none
    | duty => some (s.started f.rules ⟨i, duty⟩ s.shared)
  | .takeUp tick => (f.next? s tick).map fun j => s.started f.rules j s.shared
  | .reply n => f.respond s (.reply n) n
  | .fault n e => f.respond s (.fault n e) n
  | .name n id => f.respond s (.name n id) n
  | .outcome n o => f.respond s (.outcome n o) n

def playAll : State → List Move → Option State
  | s, [] => some s
  | s, mv :: mvs => (f.play s mv).bind fun t => playAll t mvs

variable {f}

lemma answers_of_answer? {i : Nat} {x y : Shared} {mv : Move} {q : Ask} {a : q.Answer}
    (h : mv.answer? f i x q = some (a, y)) : f.Answers i x q a y := by
  cases mv <;> cases q <;> simp only [Move.answer?] at h
  all_goals first | cases h | skip
  case reply.now => exact .now
  case reply.store => exact .store _ (x.store.allows_answer _)
  case reply.pick => exact .pick _
  case reply.tell => exact .tell _
  case fault.store => exact .fault _ _
  case name.freshId id =>
    split at h
    · next hid => cases h; exact .freshId _ hid
    · cases h
  case outcome.send => exact .send _ _ _

lemma takesUp_of_next? {s : State} {tick : Nat} {j : Job} (h : f.next? s tick = some j) :
    f.rules.starts s j s.shared := by
  unfold next? at h
  split at h
  · next i now due htick =>
    split at h
    · next t hdue =>
      split at h
      · next hroom =>
        cases h
        exact ⟨rfl, now, due, htick, hdue, hroom⟩
      · cases h
    · cases h
  · cases h

lemma step_of_respond {s t : State} {mv : Move} {n : Nat} (h : f.respond s mv n = some t) :
    Step f.rules s t := by
  unfold respond at h
  split at h
  · next hn =>
    obtain ⟨⟨a, y⟩, ha, rfl⟩ := Option.map_eq_some_iff.1 h
    exact .answer hn (answers_of_answer? ha)
  · cases h

theorem step_of_play {s t : State} {mv : Move} (h : f.play s mv = some t) :
    Step f.rules s t := by
  cases mv with
  | clock t => cases h; exact .move ⟨t, rfl⟩
  | start i duty =>
    cases duty with
    | process => cases h
    | _ => cases h; exact .start ⟨rfl, trivial⟩
  | takeUp tick =>
    obtain ⟨j, hj, rfl⟩ := Option.map_eq_some_iff.1 h
    exact .start (takesUp_of_next? hj)
  | reply | fault | name | outcome => exact step_of_respond h

theorem run_of_playAll {s t : State} {mvs : List Move} (h : f.playAll s mvs = some t) :
    Run f.rules s t := by
  induction mvs generalizing s with
  | nil => cases h; exact .refl
  | cons mv mvs ih =>
    obtain ⟨u, hu, ht⟩ := Option.bind_eq_some_iff.1 h
    exact (Run.refl.snoc (step_of_play hu)).trans (ih ht)

theorem reachable_of_playAll {clock : Instant} {s : State} {mvs : List Move}
    (h : f.playAll { shared := f.first [] clock } mvs = some s) : f.Reachable s :=
  ⟨clock, run_of_playAll h⟩

/-- Queues with the same settings and the same transports. -/
def uniform (c : Config) (transports : List Transport) : Fleet where
  config := c
  queue _ := Queue.wire c transports none
  shared _ := rfl

/-- A request for one line to one address, at the epoch. -/
def note (address line : String) : Request :=
  { Request.ofMail { Mail.new (.one address) with text := some line } with sendAt := some .epoch }

end MailQueue.Fleet

import MailQueue.Proofs.Depot.Basic
import MailQueue.Proofs.Fleet.Play

/-!
# Runs over a server that are written down

A run of a depot as a list of moves, which leave out what the rules determine anyway.

* `Move` is one step, `play` the state it leads to and `playAll` that of a list;
* `run_of_playAll`: what is played is a run;
* `uniform` is a depot whose queues share their transports too, and any depot opens on an empty
  server: `opens_empty`;
* `decodable_of_all`: that all letters were decoded can be checked by going through the log.
-/

namespace MailQueue.Depot

open KeyValue Interleaving

inductive Move where
  | start (queue : Nat) (duty : Duty)
  /-- The entry of this index in the list of a tick is worked on. -/
  | takeUp (tick index : Nat)
  /-- The job of this number is answered in the one way there is. -/
  | reply (n : Nat)
  | clock (n : Nat) (t : Instant)
  | name (n : Nat) (id : TaskId)
  | outcome (n : Nat) (o : SendOutcome)
  | page (n : Nat) (keys : List String)

/-- The job of this number is answered so many times. -/
def turns (n count : Nat) : List Move := List.replicate count (.reply n)

variable (d : Depot)

/-- The answer that a move gives, with what is shared afterwards. -/
def Move.answer? (i : Nat) (x : Shared) : Move → (q : Ask) → Option (q.Answer × Shared)
  | reply _, .own (.pick stored) =>
    some (((d.queue i).pool.select (x.cursor i) stored).1,
      { x with cursor :=
          Function.update x.cursor i ((d.queue i).pool.select (x.cursor i) stored).2 })
  | reply _, .own (.tell _) => some ((), x)
  | reply _, .command _ c =>
    some ((x.server.answer x.now c).1, { x with server := (x.server.answer x.now c).2 })
  | reply _, .returned _ _ => some ((), x)
  | clock _ t, .own .now => some (t, x)
  | name _ id, .own .freshId =>
    if id ∉ x.issued then some (id, { x with issued := id :: x.issued }) else none
  | outcome _ o, .own (.send _ _) => some (o, x)
  | page _ keys, .command _ (.scan _ _ _) => some (some (0, keys), x)
  | _, _ => none

/-- The state after the answer that a move gives to the job of this number. -/
def respond (s : State) (mv : Move) (n : Nat) : Option State :=
  match s.threads[n]? with
  | some ⟨j, .ask q next⟩ =>
    (mv.answer? d j.queue s.shared q).map fun r => s.answered n j q r.1 next r.2
  | _ => none

/-- The work on an entry that a tick has listed. -/
def listed? (s : State) (tick index : Nat) : Option Job :=
  match s.threads[tick]? with
  | some ⟨⟨i, .list⟩, .done (some (now, entries))⟩ =>
    entries[index]?.map fun due => ⟨i, .entry tick now due⟩
  | _ => none

def play (s : State) : Move → Option State
  | .start i duty =>
    match duty with
    | .entry _ _ _ => none
    | duty => some (s.started d.rules ⟨i, duty⟩ s.shared)
  | .takeUp tick index => (listed? s tick index).map fun j => s.started d.rules j s.shared
  | .reply n => d.respond s (.reply n) n
  | .clock n t => d.respond s (.clock n t) n
  | .name n id => d.respond s (.name n id) n
  | .outcome n o => d.respond s (.outcome n o) n
  | .page n keys => d.respond s (.page n keys) n

def playAll : State → List Move → Option State
  | s, [] => some s
  | s, mv :: mvs => (d.play s mv).bind fun t => playAll t mvs

variable {d}

theorem answers_of_answer? {i : Nat} {x y : Shared} {mv : Move} {q : Ask} {a : q.Answer}
    (h : mv.answer? d i x q = some (a, y)) : d.Answers i x q a y := by
  unfold Move.answer? at h
  split at h
  case h_6 =>
    split at h
    · next hid => cases h; exact .freshId _ hid
    · cases h
  all_goals cases h
  · exact .pick _
  · exact .tell _
  · exact .command _ _
  · exact .returned _ _
  · exact .now _
  · exact .send _ _ _
  · exact .scan _ _ _ _ _

theorem starts_of_listed? {s : State} {tick index : Nat} {j : Job}
    (h : listed? s tick index = some j) : d.rules.starts s j s.shared := by
  unfold listed? at h
  split at h
  · next i now entries htick =>
    obtain ⟨due, hdue, rfl⟩ := Option.map_eq_some_iff.1 h
    exact ⟨rfl, entries, List.mem_of_getElem? hdue, htick⟩
  · cases h

theorem step_of_respond {s t : State} {mv : Move} {n : Nat} (h : d.respond s mv n = some t) :
    Step d.rules s t := by
  unfold respond at h
  split at h
  · next hn =>
    obtain ⟨⟨a, y⟩, ha, rfl⟩ := Option.map_eq_some_iff.1 h
    exact .answer hn (answers_of_answer? ha)
  · cases h

theorem step_of_play {s t : State} {mv : Move} (h : d.play s mv = some t) :
    Step d.rules s t := by
  cases mv with
  | start i duty =>
    cases duty with
    | entry => cases h
    | enqueue | cancel | list => cases h; exact .start ⟨rfl, trivial⟩
  | takeUp tick index =>
    obtain ⟨j, hj, rfl⟩ := Option.map_eq_some_iff.1 h
    exact .start (starts_of_listed? hj)
  | reply | clock | name | outcome | page => exact step_of_respond h

theorem run_of_playAll {s t : State} {mvs : List Move} (h : d.playAll s mvs = some t) :
    Run d.rules s t := by
  induction mvs generalizing s with
  | nil => cases h; exact .refl
  | cons mv mvs ih =>
    obtain ⟨u, hu, ht⟩ := Option.bind_eq_some_iff.1 h
    exact (Run.refl.snoc (step_of_play hu)).trans (ih ht)

/-- Queues with the same settings and the same transports over one scope. -/
def uniform (c : Config) (transports : List Transport) (keys : Keys) : Depot where
  toFleet := Fleet.uniform c transports
  keys := keys

def Shared.empty : Shared := ⟨{}, 0, fun _ => 0, []⟩

theorem opens_empty (d : Depot) : d.Opens .empty where
  calm := ⟨rfl, rfl⟩
  lasting id := ⟨fun e he => absurd he List.not_mem_nil, fun e he => absurd he List.not_mem_nil⟩
  issued id h := by cases h

/-- What was read was decoded, if it was not the mark of this task. -/
def decodes (k : Keys) (id : TaskId) (e : Entry) : Bool :=
  match e.exchange with
  | ⟨.command _ (.get key), some (some raw)⟩ => key == k.mark id || (Task.ofLetter raw).isSome
  | _ => true

theorem decodable_of_all {log : List Entry} {id : TaskId}
    (h : log.all (decodes d.keys id) = true) : Decodable d log := by
  intro e he call id' raw hx
  have hd := List.all_eq_true.1 h e he
  simp only [decodes, hx, Bool.or_eq_true, beq_iff_eq] at hd
  exact hd.resolve_left (Keys.letter_ne_mark id' id)

end MailQueue.Depot

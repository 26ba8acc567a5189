import MailQueue.Program

/-!
# Working side by side

A crew works through a list of entries, several at a time. A scout turns one entry after another
into a job, as long as a hand is free, and the hands work on the jobs. Some questions are answered
at once. The others wait for the end of the round: then all that were asked are answered in the
order of asking, and the scout goes on first, the hands after it in the order of their answers.

* `Program.advance` runs a program up to a question that has to wait;
* `Crew.fill` lets the scout go on, `Crew.poll` lets the hands go on, `Crew.reply` ends a round;
* `Crew.run` goes from round to round until nobody waits.
-/

namespace MailQueue

/-- Runs a program up to a question that has to wait, or to its end. -/
def Program.advance {Ask : Type} {Answer : Ask → Type} {α σ : Type} (waits : Ask → Bool)
    (answer : (q : Ask) → σ → Answer q × σ) :
    Program Ask Answer α → σ → Program Ask Answer α × σ
  | .done a, s => (.done a, s)
  | .ask q next, s =>
    if waits q then (.ask q next, s)
    else
      let (a, s) := answer q s
      (next a).advance waits answer s

/-- The work of a scout on one entry: a job, or nothing to be done. -/
abbrev Scouting (Ask : Type) (Answer : Ask → Type) (β : Type) : Type :=
  Program Ask Answer (Option (Program Ask Answer β))

/-- One who waits for an answer. -/
inductive Waiting (Ask : Type) (Answer : Ask → Type) (β : Type) : Type where
  | scout (p : Scouting Ask Answer β)
  | hand (p : Program Ask Answer β)

structure Crew (Ask : Type) (Answer : Ask → Type) (ι β : Type) : Type where
  /-- The entries that the scout has not looked at. -/
  entries : List ι
  /-- What the scout goes on with. -/
  scout : Option (Scouting Ask Answer β) := none
  /-- The jobs that can go on, in order. -/
  ready : List (Program Ask Answer β) := []
  /-- Who waits, in the order of asking. -/
  waiting : List (Waiting Ask Answer β) := []
  /-- The results, in the order of the jobs' ends. -/
  results : List β := []

namespace Crew

variable {Ask : Type} {Answer : Ask → Type} {ι β σ : Type}

def busy (c : Crew Ask Answer ι β) : Nat :=
  c.ready.length + c.waiting.countP fun
    | .hand _ => true
    | .scout _ => false

def scouting (c : Crew Ask Answer ι β) : Bool :=
  c.waiting.any fun
    | .hand _ => false
    | .scout _ => true

/-- A bound on how often a hand goes on within a round. -/
def load (c : Crew Ask Answer ι β) : Nat := c.entries.length + c.ready.length + 1

variable (waits : Ask → Bool) (answer : (q : Ask) → σ → Answer q × σ)
  (find : ι → Scouting Ask Answer β) (limit : Nat)

/-- The scout goes on with an entry. -/
def look (c : Crew Ask Answer ι β) (p : Scouting Ask Answer β) (s : σ) :
    Crew Ask Answer ι β × σ :=
  match p.advance waits answer s with
  | (.done none, s) => (c, s)
  | (.done (some job), s) => ({ c with ready := c.ready ++ [job] }, s)
  | (p, s) => ({ c with waiting := c.waiting ++ [.scout p] }, s)

/-- The scout looks at these entries, as long as it need not wait and a hand is free. -/
def fillFrom : List ι → Crew Ask Answer ι β → σ → Crew Ask Answer ι β × σ
  | [], c, s => ({ c with entries := [] }, s)
  | e :: rest, c, s =>
    if limit ≤ c.busy || c.scouting then ({ c with entries := e :: rest }, s)
    else
      let (c, s) := c.look waits answer (find e) s
      fillFrom rest c s

def fill (c : Crew Ask Answer ι β) (s : σ) : Crew Ask Answer ι β × σ :=
  match c.scout with
  | some p =>
    let (c, s) := ({ c with scout := none }).look waits answer p s
    fillFrom waits answer find limit c.entries c s
  | none => fillFrom waits answer find limit c.entries c s

/-- The hands go on, so many times at most; after the end of a job the scout has its turn. -/
def poll : Nat → Crew Ask Answer ι β → σ → Crew Ask Answer ι β × σ
  | 0, c, s => (c, s)
  | turns + 1, c, s =>
    match c.ready with
    | [] => (c, s)
    | job :: rest =>
      match job.advance waits answer s with
      | (.done b, s) =>
        let (c, s) := fill waits answer find limit
          { c with ready := rest, results := c.results ++ [b] } s
        poll turns c s
      | (job, s) => poll turns { c with ready := rest, waiting := c.waiting ++ [.hand job] } s

/-- Answers those who waited, in order. -/
def reply : List (Waiting Ask Answer β) → Crew Ask Answer ι β → σ → Crew Ask Answer ι β × σ
  | [], c, s => (c, s)
  | .scout (.ask q next) :: rest, c, s =>
    let (a, s) := answer q s
    reply rest { c with scout := some (next a) } s
  | .hand (.ask q next) :: rest, c, s =>
    let (a, s) := answer q s
    reply rest { c with ready := c.ready ++ [next a] } s
  | .scout p :: rest, c, s => reply rest { c with scout := some p } s
  | .hand p :: rest, c, s => reply rest { c with ready := c.ready ++ [p] } s

/-- Goes from round to round, so many at most, until nobody waits. -/
def run : Nat → Crew Ask Answer ι β → σ → List β × σ
  | 0, c, s => (c.results, s)
  | rounds + 1, c, s =>
    let (c, s) := fill waits answer find limit c s
    let (c, s) := poll waits answer find limit c.load c s
    if c.waiting.isEmpty then (c.results, s)
    else
      let (c, s) := reply answer c.waiting { c with waiting := [] } s
      run rounds c s

end Crew

end MailQueue

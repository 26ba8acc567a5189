import MailQueue.Health
import MailQueue.Store.Call

/-!
# The store in memory

Tasks by their identifiers. Every call is one step. The list stands for a map, and in which order
a map goes through its tasks is not fixed: what depends on it is told by `Memory.Allows`.

* `Memory.get?` is the view that the other operations are described by;
* `Memory.Allows` are the answers to the calls of a store;
* `Memory.answer` is the one of them that comes of the order of the list, with the newest task in
  front, and what is stored afterwards;
* `get?_put`, `get?_erase` and `get?_add` say what a write does to the view.
-/

namespace MailQueue

structure Memory where
  tasks : List Task := []
  binding : Option Binding := none
  deriving Inhabited

namespace Memory

def get? (m : Memory) (id : TaskId) : Option Task := m.tasks.find? fun t => t.id == id

/-- Sets the task that has the identifier of `task`. -/
def put (m : Memory) (task : Task) : Memory :=
  { m with tasks := m.tasks.map fun t => if t.id = task.id then task else t }

def erase (m : Memory) (id : TaskId) : Memory :=
  { m with tasks := m.tasks.filter fun t => t.id != id }

def add (m : Memory) (task : Task) : Memory := { m with tasks := task :: m.tasks }

/-- The first queue to use the store decides. -/
def bind (m : Memory) (b : Binding) : Memory := { m with binding := m.binding.or (some b) }

/-- Bound or not, there is nothing else to go wrong. -/
def health (m : Memory) : HealthReport := if m.binding.isNone then .notBound else .ok

/-- The due tasks, the earliest first. -/
def dueTasks (m : Memory) (b : Binding) (now : Instant) : List Task :=
  (m.tasks.filter fun t => t.isDue now b.maxAttempts).mergeSort fun s t =>
    decide (s.sendAt ≤ t.sendAt)

/-- The later of two tasks, the first of two at the same time. -/
def later : Option Task → Task → Option Task
  | none, t => some t
  | some s, t => if s.sendAt < t.sendAt then some t else some s

/-- The open tasks with the grouping key that are sent by a time. -/
def joinable (m : Memory) (key : String) (before : Instant) : List Task :=
  m.tasks.filter fun t => t.isOpen && decide (t.sendAt ≤ before) && t.recipient.groupingKey == key

/-- The task to be joined that is sent last. -/
def findPending (m : Memory) (key : String) (before : Instant) : Option Task :=
  (m.joinable key before).foldl later none

def mutate (m : Memory) (id : TaskId) (p : Patch) : Bool × Memory :=
  match (m.get? id).bind p.applied? with
  | some t => (true, m.put t)
  | none => (false, m)

def cancel (m : Memory) (b : Binding) (id : TaskId) : Bool × Memory :=
  match m.get? id with
  | none => (false, m)
  | some t =>
    if t.isOpen then
      (true, if b.keepHistory then m.put { t with cancelled := true } else m.erase id)
    else (false, m)

def whenBound {α : Type} (m : Memory) (f : Binding → Except StoreError α × Memory) :
    Except StoreError α × Memory :=
  match m.binding with
  | some b => f b
  | none => (.error .notBound, m)

def answer : (c : Store.Call) → Memory → c.Answer × Memory
  | .due now, m => m.whenBound fun b => (.ok ((m.dueTasks b now).map .task), m)
  | .look _ _, m => (.ok none, m)
  | .find recipient before, m =>
    m.whenBound fun _ => (.ok (m.findPending recipient.groupingKey before), m)
  | .insert task, m =>
    m.whenBound fun _ =>
      if (m.get? task.id).isSome then (.error (.duplicate task.id), m) else (.ok (), m.add task)
  | .mutate id p, m => ((.ok (m.mutate id p).1), (m.mutate id p).2)
  | .delete id, m => (.ok (m.get? id).isSome, m.erase id)
  | .cancel id, m => m.whenBound fun b => (.ok (m.cancel b id).1, (m.cancel b id).2)

/-- The due tasks in the order of their times, which says nothing of those at one time. -/
structure Lists (m : Memory) (b : Binding) (now : Instant) (due : List Task) : Prop where
  perm : due.Perm (m.tasks.filter fun t => t.isDue now b.maxAttempts)
  sorted : due.Pairwise fun s t => s.sendAt ≤ t.sendAt

/-- A task to be joined than which none is sent later; there may be several. -/
structure Finds (m : Memory) (key : String) (before : Instant) (t : Task) : Prop where
  mem : t ∈ m.joinable key before
  last : ∀ u ∈ m.joinable key before, u.sendAt ≤ t.sendAt

/-- An answer to a call that fails unless a queue uses the store. -/
def AllowsBound {α : Type} (m : Memory) (P : Binding → α → Prop) (a : Except StoreError α) : Prop :=
  match m.binding with
  | some b => ∃ x, a = .ok x ∧ P b x
  | none => a = .error .notBound

/-- What may be answered to a call, in whichever order the tasks stand. -/
def Allows (m : Memory) : (c : Store.Call) → c.Answer → Prop
  | .due now, a => m.AllowsBound (fun b due => ∃ l, m.Lists b now l ∧ due = l.map .task) a
  | .find recipient before, a =>
    m.AllowsBound (fun _ found => match found with
      | some t => m.Finds recipient.groupingKey before t
      | none => m.joinable recipient.groupingKey before = []) a
  | c, a => a = (m.answer c).1

theorem find?_map_of_id {id : TaskId} {f : Task → Task} (hf : ∀ t, (f t).id = t.id)
    (l : List Task) :
    (l.map f).find? (fun t => t.id == id) = (l.find? fun t => t.id == id).map f := by
  induction l with
  | nil => rfl
  | cons t l ih => by_cases h : t.id = id <;> simp_all

theorem get?_put (m : Memory) (task : Task) (id : TaskId) :
    (m.put task).get? id = if task.id = id then (m.get? id).map fun _ => task else m.get? id := by
  have hf : ∀ t : Task, (if t.id = task.id then task else t).id = t.id := by
    intro t; split <;> simp_all
  rw [get?, put, find?_map_of_id hf]
  rcases h : m.tasks.find? (fun t => t.id == id) with _ | t
  · simp [get?, h]
  · have ht : t.id = id := by simpa using List.find?_some h
    by_cases hi : task.id = id
    · simp [get?, h, hi, ht]
    · have : ¬ t.id = task.id := fun e => hi (e ▸ ht)
      simp [get?, h, hi, this]

theorem get?_erase (m : Memory) (id id' : TaskId) :
    (m.erase id).get? id' = if id = id' then none else m.get? id' := by
  simp only [get?, erase]
  induction m.tasks with
  | nil => simp
  | cons t l ih =>
    by_cases h : t.id = id
    · have ht : (t.id != id) = false := by simp [h]
      rw [List.filter_cons_of_neg (by simp [ht]), ih]
      by_cases h' : id = id' <;> simp_all
    · rw [List.filter_cons_of_pos (by simp [h]), List.find?_cons, List.find?_cons, ih]
      by_cases h' : id = id'
      · have hb : (t.id == id') = false := by simp [← h', h]
        simp [hb, h']
      · simp [h']

theorem get?_add (m : Memory) (task : Task) (id : TaskId) :
    (m.add task).get? id = if task.id = id then some task else m.get? id := by
  by_cases h : task.id = id <;> simp [get?, add, h]

end Memory

end MailQueue

import MailQueue.Recipient
import MailQueue.TaskId

/-!
# Keys

Where a key-value server keeps the tasks of one scope: a letter per task, a mark with the time of
sending per open task, and per recipient the task that further mails may join.

* `Keys.letter`, `Keys.mark` and `Keys.pointer` are the keys, `Keys.markPattern` matches the marks;
* `Keys.idOfMark?` reads the task off a mark's key.
-/

namespace MailQueue.KeyValue

structure Keys where
  scope : String
  deriving DecidableEq, Repr

/-- What follows `start` in a text that starts with it. -/
def dropStart? : List Char → List Char → Option (List Char)
  | [], cs => some cs
  | _ :: _, [] => none
  | a :: start, c :: cs => if a = c then dropStart? start cs else none

namespace Keys

/-- What all keys of the scope start with. -/
def base (k : Keys) : String := "mailtime:" ++ k.scope

/-- Where a task is kept. -/
def letter (k : Keys) (id : TaskId) : String := k.base ++ ":letter:" ++ id.text

/-- Where the time of sending of an open task is kept. -/
def mark (k : Keys) (id : TaskId) : String := k.base ++ ":sendat:" ++ id.text

/-- Where the task is kept that mails to a recipient may join. -/
def pointer (k : Keys) (r : Recipient) : String := k.base ++ ":concatletter:" ++ r.groupingKey

def markPattern (k : Keys) : String := k.base ++ ":sendat:*"

/-- The task that a mark of this scope belongs to. -/
def idOfMark? (k : Keys) (key : String) : Option TaskId := do
  let rest ← dropStart? k.base.toList key.toList
  let rest ← dropStart? ":sendat:".toList rest
  TaskId.parse? (String.ofList rest)

def debug (k : Keys) : String := Text.record "RedisKeys" [("base", Text.quoted k.base)]

end Keys

theorem dropStart?_append (start cs : List Char) : dropStart? start (start ++ cs) = some cs := by
  induction start with
  | nil => rfl
  | cons a start ih => simp [dropStart?, ih]

theorem dropStart?_eq_some_iff {start cs rest : List Char} :
    dropStart? start cs = some rest ↔ cs = start ++ rest := by
  constructor
  · intro h
    induction start generalizing cs with
    | nil => simpa [dropStart?] using h
    | cons a start ih =>
      cases cs with
      | nil => simp [dropStart?] at h
      | cons c cs =>
        simp only [dropStart?] at h
        split at h
        · next hac => rw [hac, ih h, List.cons_append]
        · simp at h
  · rintro rfl
    exact dropStart?_append start rest

end MailQueue.KeyValue

import MailQueue.Task.Patch

/-!
# Documents

Tasks and patches as a document server keeps them. Integers have at most 64 bits with sign; a
larger one has no document.

An object that is written in a reserved form, such as the key `$numberLong` with digits, is not
kept as a document: it stands for a datum of another type. Which forms there are is up to the
library that makes the documents. They have keys that begin with a dollar, and nothing else is
asked of them here.

* `Forms` are the reserved forms, and `Forms.integers` those of integers;
* `Datum.ofValue?` encodes a value and `Datum.toValue` decodes it;
* `taskDocument?` adds the grouping key of the recipient to the persisted form of a task;
* `patchDocument?` are the fields that a patch sets.
-/

namespace MailQueue.Documents

/-- What stands in a document. -/
inductive Datum where
  | null
  | bool (b : Bool)
  /-- An integer of 32 or of 64 bits. -/
  | int (i : Int)
  | double (x : Float)
  | text (s : String)
  | list (items : List Datum)
  | document (entries : List (String × Datum))
  /-- A datum of another type, by the value that it is read as. -/
  | other (read : Value)

instance : Inhabited Datum := ⟨.null⟩

/-! ### Reserved forms -/

/-- The keys of reserved forms. -/
def isReserved (key : String) : Bool := key.toList.head? == some '$'

/-- The reserved forms of objects, each with the datum that it stands for. -/
structure Forms where
  datum? : Entries Datum → Option Datum
  reserved : ∀ {es : Entries Datum} {x : Datum}, datum? es = some x →
    es ≠ [] ∧ ∀ e ∈ es, isReserved e.1 = true

/-- Digits after an optional sign, if the integer has no more bits than a word of that bound. -/
def integer? (bound : Int) (s : String) : Option Int :=
  let (negative, ds) := match s.toList with
    | '-' :: ds => (true, ds)
    | '+' :: ds => (false, ds)
    | ds => (false, ds)
  if ds.isEmpty ∨ ¬ ds.all Char.isDigit then none
  else
    let n : Int := Number.digitsValue ds
    let i := if negative then -n else n
    if -bound ≤ i ∧ i < bound then some i else none

/-- The forms of integers of 32 and of 64 bits. -/
def Forms.integers : Forms where
  datum?
    | [("$numberInt", .text s)] => (integer? 2147483648 s).map .int
    | [("$numberLong", .text s)] => (integer? 9223372036854775808 s).map .int
    | _ => none
  reserved := by
    intro es x h
    split at h
    · exact ⟨by simp, List.forall_mem_singleton.2 (by simp [isReserved])⟩
    · exact ⟨by simp, List.forall_mem_singleton.2 (by simp [isReserved])⟩
    · cases h

/-! ### Values -/

namespace Datum

section

variable (forms : Forms)

mutual

/-- Encodes a value; none if an integer has too many bits. -/
def ofValue? : Value → Option Datum
  | .null => some null
  | .bool b => some (bool b)
  | .int i => if Number.fitsWord64 i then some (int i) else none
  | .float x => some (double x)
  | .text s => some (text s)
  | .list items => (ofItems? items).map list
  | .object entries => (ofEntries? entries).map fun ds => (forms.datum? ds).getD (document ds)

def ofItems? : List Value → Option (List Datum)
  | [] => some []
  | v :: rest => do
    let d ← ofValue? v
    let ds ← ofItems? rest
    return d :: ds

def ofEntries? : List (String × Value) → Option (List (String × Datum))
  | [] => some []
  | (k, v) :: rest => do
    let d ← ofValue? v
    let ds ← ofEntries? rest
    return (k, d) :: ds

end

end

mutual

/-- Decodes a value; what is no number is read as null. -/
def toValue : Datum → Value
  | null => .null
  | bool b => .bool b
  | int i => .int i
  | double x => if x.isFinite then .float x else .null
  | text s => .text s
  | list items => .list (toItems items)
  | document entries => .object (toEntries entries)
  | other v => v

def toItems : List Datum → List Value
  | [] => []
  | d :: rest => toValue d :: toItems rest

def toEntries : List (String × Datum) → List (String × Value)
  | [] => []
  | (k, d) :: rest => (k, toValue d) :: toEntries rest

end

end Datum

abbrev Document := Entries Datum

/-- Where a document keeps the grouping key. -/
def recipientKey : String := "recipientKey"

/-- The document of a task; none if an integer in it has too many bits. -/
def taskDocument? (forms : Forms) (t : Task) : Option Document := do
  match ← Datum.ofValue? forms t.toValue with
  | .document entries =>
    return Entries.put entries recipientKey (.text t.recipient.groupingKey)
  | _ => none

/-- The fields that a patch sets; none if an integer in it has too many bits. -/
def patchDocument? (forms : Forms) (p : Patch) : Option Document := do
  match ← Datum.ofValue? forms p.toValue with
  | .document entries => return entries
  | _ => none

/-- The task that a document holds. -/
def taskOf? (d : Document) : Option Task :=
  (Task.ofValue (Datum.document d).toValue).toOption

end MailQueue.Documents

import MailQueue.Value.Entries

/-!
# Values

The dynamic values that persisted tasks, template fields and settings are made of. Integers and
floating-point numbers are kept apart; an object lists its entries as written.

* `Value.same` is equality of values: numbers of one kind by value, lists in order, objects as
  maps;
* `Value.merged` gives each object its keys once, the last writing of a key winning;
* `Value.sorted` puts the entries of each object in the order of their keys.
-/

namespace MailQueue

inductive Value where
  | null
  | bool (b : Bool)
  | int (i : Int)
  | float (x : Float)
  | text (s : String)
  | list (items : List Value)
  | object (entries : List (String × Value))

namespace Value

instance : Inhabited Value := ⟨null⟩

/-- The values that are neither lists nor objects are compared by kind and value; the two zeros of
floating point are equal. -/
def sameScalar : Value → Value → Bool
  | null, null => true
  | bool a, bool b => a == b
  | int a, int b => a == b
  | float a, float b => a == b
  | text a, text b => a == b
  | _, _ => false

mutual

/-- Equality of values: lists in order, objects as maps. -/
def same : Value → Value → Bool
  | list a, list b => sameItems a b
  | object a, object b => a.length == b.length && sameEntries a b
  | a, b => sameScalar a b

/-- Equality of lists, item by item. -/
def sameItems : List Value → List Value → Bool
  | [], [] => true
  | x :: a, y :: b => same x y && sameItems a b
  | _, _ => false

/-- Whether each of the entries has an equal one of its key in `b`. -/
def sameEntries : List (String × Value) → List (String × Value) → Bool
  | [], _ => true
  | (k, v) :: rest, b =>
    (match Entries.get? b k with
      | some w => same v w
      | none => false) && sameEntries rest b

end

mutual

/-- Each object with its keys once, the last writing of a key standing in the place of the
first. -/
def merged : Value → Value
  | list items => list (mergedItems items)
  | object entries => object (Entries.merge (mergedEntries entries))
  | v => v

def mergedItems : List Value → List Value
  | [] => []
  | v :: rest => merged v :: mergedItems rest

def mergedEntries : List (String × Value) → List (String × Value)
  | [] => []
  | (k, v) :: rest => (k, merged v) :: mergedEntries rest

end

mutual

/-- The entries of each object in the order of their keys. -/
def sorted : Value → Value
  | list items => list (sortedItems items)
  | object entries => object ((sortedEntries entries).mergeSort fun a b => a.1 ≤ b.1)
  | v => v

def sortedItems : List Value → List Value
  | [] => []
  | v :: rest => sorted v :: sortedItems rest

def sortedEntries : List (String × Value) → List (String × Value)
  | [] => []
  | (k, v) :: rest => (k, sorted v) :: sortedEntries rest

end

/-- An absent text is null. -/
def ofText? : Option String → Value
  | some s => text s
  | none => null

def nat (n : Nat) : Value := int n

end Value

/-- The fields of a message or a fragment. -/
abbrev Payload := Fields Value

namespace Fields

/-- Equality of fields as maps. -/
def same (a b : Payload) : Bool := (Value.object a.entries).same (.object b.entries)

end Fields

end MailQueue

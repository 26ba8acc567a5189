import MailQueue.Value.Basic

/-!
# Equivalence of values

The comparison that finds a message queued already: as equality of values, but the order of a
list does not count. How often an item stands in a list does.

* `Value.equivalent` compares two values;
* `Value.equivalentItems` pairs each item of one list with an item of the other, each used once;
* `Fields.equivalent` compares two payloads key by key.
-/

namespace MailQueue

/-- The items after one that is taken out: the last of them moves into its place. -/
def closeGap {α : Type} : List α → List α
  | [] => []
  | x :: rest => (x :: rest).getLast (List.cons_ne_nil x rest) :: (x :: rest).dropLast

/-- Takes the first item that passes the test out of the list. -/
def takeFirst {α : Type} (test : α → Bool) : List α → Option (List α)
  | [] => none
  | x :: rest => if test x then some (closeGap rest) else (takeFirst test rest).map (x :: ·)

namespace Value

mutual

/-- Equality up to the order of lists, at every depth. -/
def equivalent : Value → Value → Bool
  | list a, list b => a.length == b.length && equivalentItems a b
  | object a, object b => a.length == b.length && equivalentEntries a b
  | a, b => sameScalar a b

/-- Whether each item finds a partner of its own among `b`. -/
def equivalentItems : List Value → List Value → Bool
  | [], _ => true
  | x :: rest, b =>
    match takeFirst (fun y => equivalent x y) b with
    | some left => equivalentItems rest left
    | none => false

/-- Whether each entry has an equivalent one of its key in `b`. -/
def equivalentEntries : List (String × Value) → List (String × Value) → Bool
  | [], _ => true
  | (k, v) :: rest, b =>
    (match Entries.get? b k with
      | some w => equivalent v w
      | none => false) && equivalentEntries rest b

end

end Value

/-- Equivalence of two lists of values: a pairing of equivalent items. -/
def listsEquivalent (a b : List Value) : Bool := (Value.list a).equivalent (.list b)

namespace Fields

/-- Equivalence of payloads: the same keys with equivalent values. -/
def equivalent (a b : Payload) : Bool := (Value.object a.entries).equivalent (.object b.entries)

end Fields

end MailQueue

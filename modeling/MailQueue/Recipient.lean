import MailQueue.Text.Blank
import MailQueue.Value.Equivalent
import MailQueue.Value.Reading

/-!
# Recipients

One address or a list of addresses.

* `Recipient.groupingKey` decides which messages may travel together; the order of a list does not
  change it;
* `Recipient.valid` asks for at least one address and for no blank one;
* `Recipient.equivalent` compares up to order, one address never being equivalent to a list.
-/

namespace MailQueue

/-- To whom a message goes. -/
inductive Recipient where
  | one (address : String)
  | many (addresses : List String)
  deriving DecidableEq, Repr

namespace Recipient

instance : Inhabited Recipient := ⟨many []⟩

def addresses : Recipient → List String
  | one address => [address]
  | many addresses => addresses

/-- A non-blank address, or a non-empty list of such. -/
def valid : Recipient → Bool
  | one address => !Text.allBlank address
  | many addresses => !addresses.isEmpty && addresses.all fun a => !Text.allBlank a

/-- The addresses in the order of their characters. -/
def sortAddresses (addresses : List String) : List String := addresses.mergeSort fun a b => a ≤ b

/-- What messages to the same addresses have in common. -/
def groupingKey : Recipient → String
  | one address => address
  | many addresses => String.intercalate "," (sortAddresses addresses)

def display (r : Recipient) : String := String.intercalate ", " r.addresses

def toValue : Recipient → Value
  | one address => .text address
  | many addresses => .list (addresses.map .text)

def ofValue : Value → Except ReadError Recipient
  | .text s => .ok (one s)
  | .list items =>
    match items.mapM fun v => (Reading.text v).toOption with
    | some addresses => .ok (many addresses)
    | none => .error .notRecipient
  | _ => .error .notRecipient

/-- The same addresses, a list in any order. -/
def equivalent : Recipient → Recipient → Bool
  | one a, one b => a == b
  | many a, many b => listsEquivalent (a.map .text) (b.map .text)
  | _, _ => false

theorem sortAddresses_perm (addresses : List String) :
    (sortAddresses addresses).Perm addresses := List.mergeSort_perm _ _

theorem pairwise_sortAddresses (addresses : List String) :
    (sortAddresses addresses).Pairwise (· ≤ ·) := by
  have h := @List.pairwise_mergeSort String (fun a b => decide (a ≤ b))
    (fun a b c hab hbc => by
      simp only [decide_eq_true_eq] at hab hbc ⊢
      exact String.le_trans hab hbc)
    (fun a b => by simpa using String.le_total a b) addresses
  exact h.imp fun hab => by simpa using hab

theorem sortAddresses_eq_of_perm {a b : List String} (h : a.Perm b) :
    sortAddresses a = sortAddresses b :=
  List.Perm.eq_of_pairwise (fun _ _ _ _ => String.le_antisymm) (pairwise_sortAddresses a)
    (pairwise_sortAddresses b) ((sortAddresses_perm a).trans (h.trans (sortAddresses_perm b).symm))

theorem groupingKey_many_of_perm {a b : List String} (h : a.Perm b) :
    (many a).groupingKey = (many b).groupingKey := by
  simp only [groupingKey, sortAddresses_eq_of_perm h]

end Recipient

end MailQueue

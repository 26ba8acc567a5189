import MailQueue.Value.Basic
import MailQueue.Number.Notation

/-!
# Reading typed values

What the records of this library are read with: one reader per kind of value, the look-up of a
field that may stand once, and the causes for which a value is refused.

* `ReadError.message` words the causes;
* `once` refuses a field that is written twice.
-/

namespace MailQueue

/-- Why a value was refused. -/
inductive ReadError where
  | notText (found : Value)
  | notInteger
  | notNumber
  | notFlag
  | notList
  | notObject
  | notRecipient
  | notIdentifier
  | notInstant
  | outOfRange
  | missing (field : String)
  | repeated (field : String)
  | unknown (field : String)
  | noVariant
  | wrongLength

namespace Value

/-- How a message names what was found instead. -/
def described : Value → String
  | null => "null"
  | bool b => "boolean `" ++ (if b then "true" else "false") ++ "`"
  | int i => "integer `" ++ String.ofList (Number.intDigits i) ++ "`"
  | float x => "floating point `" ++ String.ofList (Number.Style.persisted.float x) ++ "`"
  | text s => "string \"" ++ s ++ "\""
  | list _ => "sequence"
  | object _ => "map"

end Value

def ReadError.message : ReadError → String
  | .notText v => "invalid type: " ++ v.described ++ ", expected a string"
  | .notInteger => "expected an integer"
  | .notNumber => "expected a number"
  | .notFlag => "expected a boolean"
  | .notList => "expected a sequence"
  | .notObject => "expected a map"
  | .notRecipient => "data did not match any variant of untagged enum Recipient"
  | .notIdentifier => "expected a task id"
  | .notInstant => "expected an instant"
  | .outOfRange => "value out of range"
  | .missing field => "missing field `" ++ field ++ "`"
  | .repeated field => "duplicate field `" ++ field ++ "`"
  | .unknown field => "unknown field `" ++ field ++ "`"
  | .noVariant => "unknown variant"
  | .wrongLength => "invalid length"

namespace Reading

/-- The value of a field, which may not stand twice. -/
def once (es : Entries Value) (field : String) : Except ReadError (Option Value) :=
  match es.filter fun e => e.1 == field with
  | [] => .ok none
  | [e] => .ok (some e.2)
  | _ => .error (.repeated field)

def required {α : Type} (read : Value → Except ReadError α) (es : Entries Value)
    (field : String) : Except ReadError α := do
  match ← once es field with
  | some v => read v
  | none => throw (.missing field)

def withDefault {α : Type} (read : Value → Except ReadError α) (default : α) (es : Entries Value)
    (field : String) : Except ReadError α := do
  match ← once es field with
  | some v => read v
  | none => return default

def optional {α : Type} (read : Value → Except ReadError α) (es : Entries Value)
    (field : String) : Except ReadError (Option α) := do
  match ← once es field with
  | some .null => return none
  | some v => some <$> read v
  | none => return none

def text : Value → Except ReadError String
  | .text s => .ok s
  | v => .error (.notText v)

def flag : Value → Except ReadError Bool
  | .bool b => .ok b
  | _ => .error .notFlag

/-- An integer from zero up to below `bound`. -/
def below (bound : Nat) : Value → Except ReadError Nat
  | .int i => if 0 ≤ i ∧ i < bound then .ok i.toNat else .error .outOfRange
  | _ => .error .notInteger

def word32 (v : Value) : Except ReadError UInt32 := UInt32.ofNat <$> below UInt32.size v

def word64 (v : Value) : Except ReadError UInt64 := UInt64.ofNat <$> below UInt64.size v

/-- A float, or an integer rounded to one. -/
def float : Value → Except ReadError Float
  | .float x => .ok x
  | .int i => .ok (Float.ofInt i)
  | _ => .error .notNumber

def list : Value → Except ReadError (List Value)
  | .list items => .ok items
  | _ => .error .notList

def object : Value → Except ReadError (Entries Value)
  | .object es => .ok es
  | _ => .error .notObject

/-- A record written as an object, or as the list of its fields in order, the last `optional` of
which may be left off. -/
def record (fields : List String) (optional : Nat) : Value → Except ReadError (Entries Value)
  | .object es => .ok es
  | .list items =>
    if fields.length < items.length + optional + 1 ∧ items.length ≤ fields.length then
      .ok (fields.zip items)
    else .error .wrongLength
  | _ => .error .notObject

/-- One of some names, alone or as the only key of an object with the value null. -/
def variant {α : Type} (names : List (String × α)) : Value → Except ReadError α
  | .text s => match Entries.get? names s with
    | some a => .ok a
    | none => .error .noVariant
  | .object [(s, .null)] => match Entries.get? names s with
    | some a => .ok a
    | none => .error .noVariant
  | _ => .error .noVariant

end Reading

end MailQueue

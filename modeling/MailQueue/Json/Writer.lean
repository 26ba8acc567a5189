import MailQueue.Value.Basic
import MailQueue.Number.Notation

/-!
# Writing JSON

The compact text of a value: no blanks, entries in the order of the object, characters above ASCII
as they are. A float that is not finite has no JSON text and is written as null.
-/

namespace MailQueue.Json

/-- One character inside a string: quotes, backslashes and controls are escaped. -/
def stringChar (c : Char) : List Char :=
  match c with
  | '"' => ['\\', '"']
  | '\\' => ['\\', '\\']
  | '\n' => ['\\', 'n']
  | '\r' => ['\\', 'r']
  | '\t' => ['\\', 't']
  | '\x08' => ['\\', 'b']
  | '\x0c' => ['\\', 'f']
  | c =>
    if c.toNat < 0x20 then
      ['\\', 'u', '0', '0', Nat.digitChar (c.toNat / 16), Nat.digitChar (c.toNat % 16)]
    else [c]

def string (s : String) : List Char := '"' :: (s.toList.flatMap stringChar ++ ['"'])

/-- A number with a point or an exponent; null if it is not finite. -/
def float (x : Float) : List Char :=
  if x.isFinite then Number.Style.persisted.float x else ['n', 'u', 'l', 'l']

mutual

/-- The characters of a value's text. -/
def chars : Value → List Char
  | .null => ['n', 'u', 'l', 'l']
  | .bool true => ['t', 'r', 'u', 'e']
  | .bool false => ['f', 'a', 'l', 's', 'e']
  | .int i => Number.intDigits i
  | .float x => float x
  | .text s => string s
  | .list items => '[' :: (itemChars items ++ [']'])
  | .object entries => '{' :: (entryChars entries ++ ['}'])

def itemChars : List Value → List Char
  | [] => []
  | [v] => chars v
  | v :: rest => chars v ++ ',' :: itemChars rest

def entryChars : List (String × Value) → List Char
  | [] => []
  | [(k, v)] => string k ++ ':' :: chars v
  | (k, v) :: rest => string k ++ ':' :: (chars v ++ ',' :: entryChars rest)

end

def write (v : Value) : String := String.ofList (chars v)

end MailQueue.Json

import MailQueue.Text.Printable

/-!
# Quoted text

How a diagnostic shows a text: between double quotes, with quotes and backslashes escaped, the
common control characters by their letter and every other character that would not show on its
own by its code point in lower hexadecimal, as in `\u{7f}`.

* `quoted` shows one text, `quotedList` a list of them;
* `record` shows a record as its name and its fields in order.
-/

namespace MailQueue.Text

/-- The code point of `c` in lower hexadecimal, without leading zeros. -/
def hexDigits (n : Nat) : List Char := Nat.toDigits 16 n

def quotedChar (c : Char) : List Char :=
  match c with
  | '"' => ['\\', '"']
  | '\\' => ['\\', '\\']
  | '\n' => ['\\', 'n']
  | '\r' => ['\\', 'r']
  | '\t' => ['\\', 't']
  | '\x00' => ['\\', '0']
  | c => if isPrintable c then [c] else ['\\', 'u', '{'] ++ hexDigits c.toNat ++ ['}']

/-- A text between double quotes, each character as `quotedChar` shows it. -/
def quoted (s : String) : String :=
  String.ofList ('"' :: s.toList.flatMap quotedChar ++ ['"'])

/-- A list of texts, quoted and between brackets. -/
def quotedList (items : List String) : String :=
  "[" ++ String.intercalate ", " (items.map quoted) ++ "]"

/-- A record as a diagnostic shows it: its name, then its fields in order between braces. -/
def record (name : String) (fields : List (String × String)) : String :=
  name ++ " \x7b " ++ String.intercalate ", " (fields.map fun f => f.1 ++ ": " ++ f.2) ++ " \x7d"

end MailQueue.Text

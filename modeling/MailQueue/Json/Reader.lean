import MailQueue.Value.Basic
import MailQueue.Number.Literal

/-!
# Reading JSON

`parse` reads a text as one value. An object keeps every entry as written, also of a repeated key;
`Value.merged` makes a map of it. A literal without point or exponent that fits 64 bits, signed or
unsigned, is an integer and any other number a float, `-0` too.

Lists and objects may stand 127 deep. The readers below take the depth still allowed and as fuel a
bound on the characters left, which `parse` sets to the length of the text.
-/

namespace MailQueue.Json

def isSpace (c : Char) : Bool := c == ' ' || c == '\n' || c == '\t' || c == '\r'

/-- The characters from the first that is no blank. -/
def skipSpace (cs : List Char) : List Char := cs.dropWhile isSpace

def hex4 : List Char → Option (Nat × List Char)
  | a :: b :: c :: d :: rest => do
    let a ← Number.digitIn 16 a
    let b ← Number.digitIn 16 b
    let c ← Number.digitIn 16 c
    let d ← Number.digitIn 16 d
    return (((a * 16 + b) * 16 + c) * 16 + d, rest)
  | _ => none

/-- The character after `\u`: four digits, or the two halves of a pair. -/
def unicodeEscape (cs : List Char) : Option (Char × List Char) := do
  let (n, rest) ← hex4 cs
  if 0xD800 ≤ n ∧ n < 0xDC00 then
    match rest with
    | '\\' :: 'u' :: rest =>
      let (low, rest) ← hex4 rest
      if 0xDC00 ≤ low ∧ low < 0xE000 then
        return (Char.ofNat (0x10000 + (n - 0xD800) * 0x400 + (low - 0xDC00)), rest)
      else none
    | _ => none
  else if 0xDC00 ≤ n ∧ n < 0xE000 then none
  else return (Char.ofNat n, rest)

/-- The character that a letter after a backslash stands for. -/
def simpleEscape : Char → Option Char
  | '"' => some '"'
  | '\\' => some '\\'
  | '/' => some '/'
  | 'b' => some '\x08'
  | 'f' => some '\x0c'
  | 'n' => some '\n'
  | 'r' => some '\r'
  | 't' => some '\t'
  | _ => none

/-- The characters of a string up to its closing quote. -/
def stringTail : Nat → List Char → Option (List Char × List Char)
  | 0, _ => none
  | fuel + 1, cs =>
    match cs with
    | [] => none
    | '"' :: rest => some ([], rest)
    | '\\' :: 'u' :: rest => do
      let (c, rest) ← unicodeEscape rest
      let (tail, rest) ← stringTail fuel rest
      return (c :: tail, rest)
    | '\\' :: e :: rest => do
      let c ← simpleEscape e
      let (tail, rest) ← stringTail fuel rest
      return (c :: tail, rest)
    | c :: rest =>
      if c.toNat < 0x20 ∨ c = '\\' then none
      else do
        let (tail, rest) ← stringTail fuel rest
        return (c :: tail, rest)

/-- The digits at the front. -/
def digits (cs : List Char) : List Char × List Char :=
  (cs.takeWhile Char.isDigit, cs.dropWhile Char.isDigit)

/-- An exponent, if one follows: a missing digit after its mark is an error. -/
def exponent (cs : List Char) : Option (Option Int × List Char) :=
  match cs with
  | c :: rest =>
    if c = 'e' ∨ c = 'E' then
      let (negative, rest) := match rest with
        | '-' :: rest => (true, rest)
        | '+' :: rest => (false, rest)
        | rest => (false, rest)
      let (ds, rest) := digits rest
      if ds.isEmpty then none
      else
        let n : Int := Number.digitsValue ds
        some (some (if negative then -n else n), rest)
    else some (none, cs)
  | [] => some (none, cs)

/-- A fraction, if a point follows: a missing digit after it is an error. -/
def fraction (cs : List Char) : Option (Option (List Char) × List Char) :=
  match cs with
  | '.' :: rest =>
    let (ds, rest) := digits rest
    if ds.isEmpty then none else some (some ds, rest)
  | cs => some (none, cs)

/-- A literal without point and exponent: an integer if it fits 64 bits. -/
def wholeNumber (negative : Bool) (whole : List Char) : Option Value :=
  let n := Number.digitsValue whole
  if negative then
    if 0 < n ∧ n ≤ 9223372036854775808 then some (.int (-n))
    else (Number.literal true whole [] 0).map .float
  else if n < UInt64.size then some (.int n)
  else (Number.literal false whole [] 0).map .float

/-- A number, its sign read already. -/
def unsignedNumber (negative : Bool) (cs : List Char) : Option (Value × List Char) := do
  let (whole, rest) := digits cs
  if whole.isEmpty ∨ (whole.head? = some '0' ∧ 1 < whole.length) then none
  let (fractionDigits, rest) ← fraction rest
  let (e, rest) ← exponent rest
  if fractionDigits.isNone ∧ e.isNone then
    let v ← wholeNumber negative whole
    return (v, rest)
  else
    let x ← Number.literal negative whole (fractionDigits.getD []) (e.getD 0)
    return (.float x, rest)

def number (cs : List Char) : Option (Value × List Char) :=
  match cs with
  | '-' :: rest => unsignedNumber true rest
  | cs => unsignedNumber false cs

mutual

/-- A value; blanks may stand before it. -/
def value : Nat → Nat → List Char → Option (Value × List Char)
  | 0, _, _ => none
  | fuel + 1, depth, cs =>
    match skipSpace cs with
    | 'n' :: 'u' :: 'l' :: 'l' :: rest => some (.null, rest)
    | 't' :: 'r' :: 'u' :: 'e' :: rest => some (.bool true, rest)
    | 'f' :: 'a' :: 'l' :: 's' :: 'e' :: rest => some (.bool false, rest)
    | '"' :: rest => do
      let (s, rest) ← stringTail (rest.length + 1) rest
      return (.text (String.ofList s), rest)
    | '[' :: rest =>
      if depth ≤ 1 then none
      else match skipSpace rest with
        | ']' :: rest => some (.list [], rest)
        | rest => do
          let (items, rest) ← items fuel (depth - 1) rest
          return (.list items, rest)
    | '{' :: rest =>
      if depth ≤ 1 then none
      else match skipSpace rest with
        | '}' :: rest => some (.object [], rest)
        | rest => do
          let (entries, rest) ← entries fuel (depth - 1) rest
          return (.object entries, rest)
    | cs => number cs

/-- The items of a list that is not empty, up to its bracket. -/
def items : Nat → Nat → List Char → Option (List Value × List Char)
  | 0, _, _ => none
  | fuel + 1, depth, cs => do
    let (v, rest) ← value fuel depth cs
    match skipSpace rest with
    | ']' :: rest => return ([v], rest)
    | ',' :: rest =>
      let (vs, rest) ← items fuel depth rest
      return (v :: vs, rest)
    | _ => none

/-- The entries of an object that is not empty, up to its brace. -/
def entries : Nat → Nat → List Char → Option (List (String × Value) × List Char)
  | 0, _, _ => none
  | fuel + 1, depth, cs => do
    let '"' :: rest := skipSpace cs | none
    let (key, rest) ← stringTail (rest.length + 1) rest
    let ':' :: rest := skipSpace rest | none
    let (v, rest) ← value fuel depth rest
    match skipSpace rest with
    | '}' :: rest => return ([(String.ofList key, v)], rest)
    | ',' :: rest =>
      let (es, rest) ← entries fuel depth rest
      return ((String.ofList key, v) :: es, rest)
    | _ => none

end

/-- How deep lists and objects may stand, and one. -/
def maxDepth : Nat := 128

/-- The value of a text, its objects as written. -/
def parse (text : String) : Option Value :=
  let cs := text.toList
  match value (2 * cs.length + 2) maxDepth cs with
  | some (v, rest) => if (skipSpace rest).isEmpty then some v else none
  | none => none

end MailQueue.Json

import MailQueue.Json.Reader

/-!
# Reading a record

A record is read by the keys it knows. The value under any other key is passed over: it has to be
written as a value, but nothing is made of it, so that its numbers may be out of range, its escapes
may stand for no character and it may stand as deep as it likes.

* `skipValue` passes over a value; the fuel is as for `value`;
* `knownEntries` reads the entries of an object that have known keys;
* `parseRecord` reads a text. One that is no object is read as any other value.
-/

namespace MailQueue.Json

/-- The characters after the closing quote of a string. -/
def skipString : List Char → Option (List Char)
  | [] => none
  | '"' :: rest => some rest
  | '\\' :: 'u' :: a :: b :: c :: d :: rest =>
    if (hex4 [a, b, c, d]).isSome then skipString rest else none
  | '\\' :: e :: rest => if (simpleEscape e).isSome then skipString rest else none
  | c :: rest => if c.toNat < 0x20 ∨ c = '\\' then none else skipString rest

def skipUnsigned (cs : List Char) : Option (List Char) := do
  let (whole, rest) := digits cs
  if whole.isEmpty ∨ (whole.head? = some '0' ∧ 1 < whole.length) then none
  let (_, rest) ← fraction rest
  let (_, rest) ← exponent rest
  return rest

/-- The characters after a number, of whatever size. -/
def skipNumber (cs : List Char) : Option (List Char) :=
  match cs with
  | '-' :: rest => skipUnsigned rest
  | cs => skipUnsigned cs

mutual

/-- The characters after a value; blanks may stand before it. -/
def skipValue : Nat → List Char → Option (List Char)
  | 0, _ => none
  | fuel + 1, cs =>
    match skipSpace cs with
    | 'n' :: 'u' :: 'l' :: 'l' :: rest => some rest
    | 't' :: 'r' :: 'u' :: 'e' :: rest => some rest
    | 'f' :: 'a' :: 'l' :: 's' :: 'e' :: rest => some rest
    | '"' :: rest => skipString rest
    | '[' :: rest =>
      match skipSpace rest with
      | ']' :: rest => some rest
      | rest => skipItems fuel rest
    | '{' :: rest =>
      match skipSpace rest with
      | '}' :: rest => some rest
      | rest => skipEntries fuel rest
    | cs => skipNumber cs

def skipItems : Nat → List Char → Option (List Char)
  | 0, _ => none
  | fuel + 1, cs => do
    let rest ← skipValue fuel cs
    match skipSpace rest with
    | ']' :: rest => return rest
    | ',' :: rest => skipItems fuel rest
    | _ => none

def skipEntries : Nat → List Char → Option (List Char)
  | 0, _ => none
  | fuel + 1, cs => do
    let '"' :: rest := skipSpace cs | none
    let rest ← skipString rest
    let ':' :: rest := skipSpace rest | none
    let rest ← skipValue fuel rest
    match skipSpace rest with
    | '}' :: rest => return rest
    | ',' :: rest => skipEntries fuel rest
    | _ => none

end

section

variable (known : String → Bool)

/-- The value under a key, if the key is known. -/
def knownValue (key : String) (fuel depth : Nat) (cs : List Char) :
    Option (List (String × Value) × List Char) :=
  if known key then (value fuel depth cs).map fun v => ([(key, v.1)], v.2)
  else (skipValue fuel cs).map fun rest => ([], rest)

/-- The entries with known keys of an object that is not empty, up to its brace. -/
def knownEntries : Nat → Nat → List Char → Option (List (String × Value) × List Char)
  | 0, _, _ => none
  | fuel + 1, depth, cs => do
    let '"' :: rest := skipSpace cs | none
    let (key, rest) ← stringTail (rest.length + 1) rest
    let ':' :: rest := skipSpace rest | none
    let (entry, rest) ← knownValue known (String.ofList key) fuel depth rest
    match skipSpace rest with
    | '}' :: rest => return (entry, rest)
    | ',' :: rest =>
      let (es, rest) ← knownEntries fuel depth rest
      return (entry ++ es, rest)
    | _ => none

def record (fuel : Nat) (cs : List Char) : Option (Value × List Char) :=
  match skipSpace cs with
  | '{' :: rest =>
    match skipSpace rest with
    | '}' :: rest => some (.object [], rest)
    | rest => (knownEntries known fuel (maxDepth - 1) rest).map fun es => (.object es.1, es.2)
  | _ => value (fuel + 1) maxDepth cs

/-- The value of a text, an object without the entries that have no known key. -/
def parseRecord (text : String) : Option Value :=
  let cs := text.toList
  match record known (2 * cs.length + 1) cs with
  | some (v, rest) => if (skipSpace rest).isEmpty then some v else none
  | none => none

end

end MailQueue.Json

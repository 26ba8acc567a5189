import MailQueue.Number.Literal

/-!
# Text in settings

The characters of a settings text: blanks, line ends, comments and the four kinds of string. A
string in double quotes knows escapes, one in single quotes does not; with the quote written three
times it may run over several lines.

* `lineEnd?` passes what may stand behind a statement;
* `string` reads a string of any kind, `key` one that may be a key.
-/

namespace MailQueue.Toml

/-- The blanks within a line. -/
def isBlank (c : Char) : Bool := c == ' ' || c == '\t'

/-- Whether a character may stand as itself in a comment or a string: no control character but the
tab. -/
def isPlain (c : Char) : Bool := c == '\t' || (0x20 ≤ c.toNat && c.toNat != 0x7F)

/-- Whether a character may stand in a key without quotes. -/
def isBare (c : Char) : Bool :=
  c.isDigit || ('a' ≤ c && c ≤ 'z') || ('A' ≤ c && c ≤ 'Z') || c == '_' || c == '-'

/-- The characters from the first that is no blank. -/
def skipBlanks (cs : List Char) : List Char := cs.dropWhile isBlank

/-- The characters after a line end. -/
def newline? : List Char → Option (List Char)
  | '\n' :: rest => some rest
  | '\r' :: '\n' :: rest => some rest
  | _ => none

/-- The next line, if only blanks and a comment are left of this one. -/
def lineEnd? (cs : List Char) : Option (List Char) :=
  let rest := match skipBlanks cs with
    | '#' :: comment => comment.dropWhile isPlain
    | cs => cs
  if rest.isEmpty then some [] else newline? rest

/-- The characters after blanks, line ends and comments. -/
def skipLines (inComment : Bool) : List Char → List Char
  | [] => []
  | '\n' :: rest => skipLines false rest
  | '\r' :: '\n' :: rest => skipLines false rest
  | c :: rest =>
    if inComment then if isPlain c then skipLines true rest else c :: rest
    else if c == '#' then skipLines true rest
    else if isBlank c then skipLines false rest
    else c :: rest

/-- The characters after blanks and line ends. -/
def skipGap : List Char → List Char
  | [] => []
  | '\r' :: '\n' :: rest => skipGap rest
  | c :: rest => if isBlank c || c == '\n' then skipGap rest else c :: rest

/-- The character that a number of so many hexadecimal digits stands for. -/
def hexCharacter (digits : Nat) (cs : List Char) : Option (Char × List Char) := do
  if cs.length < digits then none
  let n ← (cs.take digits).foldlM
    (fun acc c => do return acc * 16 + (← Number.digitIn 16 c)) 0
  if n.isValidChar then return (Char.ofNat n, cs.drop digits) else none

/-- The character that is written after a backslash. -/
def escape : List Char → Option (Char × List Char)
  | '"' :: rest => some ('"', rest)
  | '\\' :: rest => some ('\\', rest)
  | 'b' :: rest => some ('\x08', rest)
  | 'f' :: rest => some ('\x0c', rest)
  | 'n' :: rest => some ('\n', rest)
  | 'r' :: rest => some ('\r', rest)
  | 't' :: rest => some ('\t', rest)
  | 'u' :: rest => hexCharacter 4 rest
  | 'U' :: rest => hexCharacter 8 rest
  | _ => none

/-- The characters of a string on one line up to its closing quote. The fuel bounds the characters
left. -/
def shortTail (quote : Char) (escapes : Bool) : Nat → List Char → Option (List Char × List Char)
  | 0, _ => none
  | _, [] => none
  | fuel + 1, c :: rest =>
    if c = quote then some ([], rest)
    else if escapes ∧ c = '\\' then do
      let (d, rest) ← escape rest
      let (tail, rest) ← shortTail quote escapes fuel rest
      return (d :: tail, rest)
    else if isPlain c then do
      let (tail, rest) ← shortTail quote escapes fuel rest
      return (c :: tail, rest)
    else none

/-- The characters of a string over several lines up to three closing quotes; up to two more quotes
in front of those belong to it. A line end counts as one character, and behind a backslash it is
left out with all blanks and line ends that follow. -/
def longTail (quote : Char) (escapes : Bool) : Nat → List Char → Option (List Char × List Char)
  | 0, _ => none
  | _, [] => none
  | fuel + 1, c :: rest =>
    let quotes := ((c :: rest).takeWhile (· == quote)).length
    if 3 ≤ quotes then
      let kept := min (quotes - 3) 2
      some (List.replicate kept quote, (c :: rest).drop (kept + 3))
    else match newline? (c :: rest) with
      | some rest => do
        let (tail, rest) ← longTail quote escapes fuel rest
        return ('\n' :: tail, rest)
      | none =>
        if escapes ∧ c = '\\' then
          match newline? (skipBlanks rest) with
          | some rest => longTail quote escapes fuel (skipGap rest)
          | none => do
            let (d, rest) ← escape rest
            let (tail, rest) ← longTail quote escapes fuel rest
            return (d :: tail, rest)
        else if isPlain c then do
          let (tail, rest) ← longTail quote escapes fuel rest
          return (c :: tail, rest)
        else none

/-- A string on one line, its opening quote read already. -/
def short (quote : Char) (escapes : Bool) (cs : List Char) : Option (String × List Char) := do
  let (s, rest) ← shortTail quote escapes (cs.length + 1) cs
  return (String.ofList s, rest)

/-- A string over several lines, its opening quotes read already; a line end right behind them does
not belong to it. -/
def long (quote : Char) (escapes : Bool) (cs : List Char) : Option (String × List Char) := do
  let cs := (newline? cs).getD cs
  let (s, rest) ← longTail quote escapes (cs.length + 1) cs
  return (String.ofList s, rest)

def string : List Char → Option (String × List Char)
  | '"' :: '"' :: '"' :: rest => long '"' true rest
  | '\x27' :: '\x27' :: '\x27' :: rest => long '\x27' false rest
  | '"' :: rest => short '"' true rest
  | '\x27' :: rest => short '\x27' false rest
  | _ => none

/-- One key, in quotes or without. -/
def key : List Char → Option (String × List Char)
  | '"' :: rest => short '"' true rest
  | '\x27' :: rest => short '\x27' false rest
  | cs =>
    let bare := cs.takeWhile isBare
    if bare.isEmpty then none else some (String.ofList bare, cs.dropWhile isBare)

end MailQueue.Toml

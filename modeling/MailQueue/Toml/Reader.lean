import MailQueue.Toml.Moment
import MailQueue.Toml.Number
import MailQueue.Toml.Table
import MailQueue.Toml.Text

/-!
# Reading a settings text

A settings text is a list of statements, one a line: an assignment, the header of a table or of an
item in a list of tables. `parse` gives the object that they state.

Lists and tables within a value may stand 79 deep, and a dotted key has at most 79 parts.
-/

namespace MailQueue.Toml

/-- How deep a value or a key may go. -/
def maxDepth : Nat := 79

/-- The parts of a dotted key, blanks around each. The fuel bounds the parts. -/
def keyParts : Nat → List Char → Option (List String × List Char)
  | 0, _ => none
  | fuel + 1, cs => do
    let (k, rest) ← key (skipBlanks cs)
    match skipBlanks rest with
    | '.' :: rest =>
      let (ks, rest) ← keyParts fuel rest
      return (k :: ks, rest)
    | rest => return ([k], rest)

/-- A dotted key as the path before its last part, and the last part. -/
def path (cs : List Char) : Option (List String × String × List Char) := do
  let (ks, rest) ← keyParts maxDepth cs
  let k ← ks.getLast?
  return (ks.dropLast, k, rest)

mutual

def value : Nat → Nat → List Char → Option (Value × List Char)
  | 0, _, _ => none
  | fuel + 1, depth, cs =>
    match cs with
    | '[' :: rest =>
      if depth = 0 then none
      else do
        let (vs, rest) ← items fuel (depth - 1) rest
        return (.list vs, rest)
    | '\x7b' :: rest =>
      if depth = 0 then none
      else match skipBlanks rest with
        | '\x7d' :: rest => some (.object [], rest)
        | rest => do
          let (es, rest) ← inlineTable fuel (depth - 1) [] rest
          return (.object (Node.entriesValue es), rest)
    | 't' :: 'r' :: 'u' :: 'e' :: rest => some (.bool true, rest)
    | 'f' :: 'a' :: 'l' :: 's' :: 'e' :: rest => some (.bool false, rest)
    | cs =>
      match string cs with
      | some (s, rest) => some (.text s, rest)
      | none =>
        match moment cs with
        | some rest =>
          some (.object [("date", .text (String.ofList (cs.take (cs.length - rest.length))))], rest)
        | none => number cs

/-- The items of a list up to its bracket; a comma may stand behind the last. -/
def items : Nat → Nat → List Char → Option (List Value × List Char)
  | 0, _, _ => none
  | fuel + 1, depth, cs =>
    match skipLines false cs with
    | ']' :: rest => some ([], rest)
    | cs => do
      let (v, rest) ← value fuel depth cs
      match skipLines false rest with
      | ',' :: rest =>
        let (vs, rest) ← items fuel depth rest
        return (v :: vs, rest)
      | ']' :: rest => return ([v], rest)
      | _ => none

/-- The assignments of a table within one line up to its brace. -/
def inlineTable : Nat → Nat → Entries Node → List Char → Option (Entries Node × List Char)
  | 0, _, _, _ => none
  | fuel + 1, depth, es, cs => do
    let (before, k, rest) ← path cs
    let rest ← expect '=' rest
    let (v, rest) ← value fuel depth (skipBlanks rest)
    let es ← Node.put before k v es
    match skipBlanks rest with
    | ',' :: rest => inlineTable fuel depth es rest
    | '\x7d' :: rest => return (es, rest)
    | _ => none

end

/-- The statements of a text: `header` is the path of the table opened last and `root` what has been
stated. The fuel bounds the characters left. -/
def statements : Nat → List String → Entries Node → List Char → Option (Entries Node)
  | 0, _, _, _ => none
  | fuel + 1, header, root, cs =>
    match skipBlanks cs with
    | [] => some root
    | '[' :: '[' :: rest => do
      let (before, k, rest) ← path rest
      let rest ← expect ']' rest >>= expect ']' >>= lineEnd?
      let root ← Node.within (Node.openItem k) before root
      statements fuel (before ++ [k]) root rest
    | '[' :: rest => do
      let (before, k, rest) ← path rest
      let rest ← expect ']' rest >>= lineEnd?
      let root ← Node.within (Node.openTable k) before root
      statements fuel (before ++ [k]) root rest
    | c :: rest =>
      if c = '#' ∨ c = '\n' ∨ c = '\r' then do
        let rest ← lineEnd? (c :: rest)
        statements fuel header root rest
      else do
        let (before, k, rest) ← path (c :: rest)
        let rest ← expect '=' rest
        let rest := skipBlanks rest
        let (v, rest) ← value (2 * rest.length + 2) maxDepth rest
        let rest ← lineEnd? rest
        let root ← Node.within (Node.put before k v) header root
        statements fuel header root rest

/-- The object that a text states; a byte order mark may stand in front. -/
def parse (text : String) : Option Value := do
  let cs := match text.toList with
    | '\uFEFF' :: rest => rest
    | cs => cs
  let root ← statements (cs.length + 1) [] [] cs
  return .object (Node.entriesValue root)

end MailQueue.Toml

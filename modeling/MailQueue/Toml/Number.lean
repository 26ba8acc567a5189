import MailQueue.Value.Basic
import MailQueue.Number.Literal

/-!
# Numbers in settings

Integers are signed words of 64 bits, in base ten or behind `0x`, `0o` and `0b`. Floats are rounded
once from their digits; `inf` and `nan` are floats. One underscore may stand between two digits.
-/

namespace MailQueue.Toml

/-- The digits from here on, each after at most one underscore. -/
def moreDigits (base : Nat) : List Char → Option (List Char × List Char)
  | [] => some ([], [])
  | ['_'] => none
  | '_' :: c :: rest => do
    let _ ← Number.digitIn base c
    let (ds, rest) ← moreDigits base rest
    return (c :: ds, rest)
  | c :: rest =>
    match Number.digitIn base c with
    | some _ => do
      let (ds, rest) ← moreDigits base rest
      return (c :: ds, rest)
    | none => some ([], c :: rest)

def digits (base : Nat) : List Char → Option (List Char × List Char)
  | [] => none
  | c :: rest => do
    let _ ← Number.digitIn base c
    let (ds, rest) ← moreDigits base rest
    return (c :: ds, rest)

/-- The digits before a point; a zero stands alone. -/
def wholeDigits : List Char → Option (List Char × List Char)
  | '0' :: rest => some (['0'], rest)
  | cs => digits 10 cs

/-- A sign, and whether it is a minus. -/
def sign : List Char → Bool × List Char
  | '-' :: rest => (true, rest)
  | '+' :: rest => (false, rest)
  | cs => (false, cs)

def fraction : List Char → Option (Option (List Char) × List Char)
  | '.' :: rest => do
    let (ds, rest) ← digits 10 rest
    return (some ds, rest)
  | cs => some (none, cs)

def exponent (cs : List Char) : Option (Option Int × List Char) :=
  match cs with
  | [] => some (none, [])
  | c :: rest =>
    if c = 'e' ∨ c = 'E' then do
      let (negative, rest) := sign rest
      let (ds, rest) ← digits 10 rest
      let n : Int := Number.digitsValue ds
      return (some (if negative then -n else n), rest)
    else some (none, cs)

def integer (i : Int) : Option Value :=
  if Number.fitsWord64 i then some (.int i) else none

/-- Digits of a base other than ten. -/
def based (base : Nat) (cs : List Char) : Option (Value × List Char) := do
  let (ds, rest) ← digits base cs
  let v ← integer (ds.foldl (fun acc c => acc * base + (Number.digitIn base c).getD 0) 0 : Nat)
  return (v, rest)

/-- A decimal number. Without fraction and exponent it is an integer. Digits that are too large for
a float are refused above zero and taken as infinite below. -/
def decimal (cs : List Char) : Option (Value × List Char) := do
  let (negative, rest) := sign cs
  let (whole, rest) ← wholeDigits rest
  let (fractionDigits, rest) ← fraction rest
  let (e, rest) ← exponent rest
  if fractionDigits.isNone ∧ e.isNone then
    let n : Int := Number.digitsValue whole
    let v ← integer (if negative then -n else n)
    return (v, rest)
  else
    let ds := fractionDigits.getD []
    let x := Number.exact negative (Number.digitsValue (whole ++ ds)) (e.getD 0 - ds.length)
    if x.isInf ∧ !negative then none else return (.float x, rest)

/-- A float that has no digits. -/
def unusual (cs : List Char) : Option (Value × List Char) :=
  let (negative, rest) := sign cs
  match rest with
  | 'i' :: 'n' :: 'f' :: rest =>
    some (.float (if negative then -(1.0 / 0.0) else 1.0 / 0.0), rest)
  | 'n' :: 'a' :: 'n' :: rest => some (.float (0.0 / 0.0), rest)
  | _ => none

def number : List Char → Option (Value × List Char)
  | '0' :: 'x' :: rest => based 16 rest
  | '0' :: 'o' :: rest => based 8 rest
  | '0' :: 'b' :: rest => based 2 rest
  | cs => unusual cs <|> decimal cs

end MailQueue.Toml

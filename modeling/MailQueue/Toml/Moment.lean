import MailQueue.Number.Literal

/-!
# Dates and times in settings

No setting is a date, but one may stand where a setting is passed over. `moment` says where a date,
a time or both end.
-/

namespace MailQueue.Toml

/-- A number of so many decimal digits within bounds. -/
def fixed (places lo hi : Nat) (cs : List Char) : Option (Nat × List Char) :=
  let ds := cs.take places
  let n := Number.digitsValue ds
  if ds.length = places ∧ ds.all Char.isDigit ∧ lo ≤ n ∧ n ≤ hi then some (n, cs.drop places)
  else none

/-- The characters after one that has to come next. -/
def expect (c : Char) : List Char → Option (List Char)
  | d :: rest => if c = d then some rest else none
  | [] => none

def lastDay (year month : Nat) : Nat :=
  if month = 2 then if year % 4 = 0 ∧ (year % 100 ≠ 0 ∨ year % 400 = 0) then 29 else 28
  else if month = 4 ∨ month = 6 ∨ month = 9 ∨ month = 11 then 30
  else 31

def date (cs : List Char) : Option (List Char) := do
  let (year, rest) ← fixed 4 0 9999 cs
  let rest ← expect '-' rest
  let (month, rest) ← fixed 2 1 12 rest
  let rest ← expect '-' rest
  let (_, rest) ← fixed 2 1 (lastDay year month) rest
  return rest

/-- What follows a time of day; the last minute may have a leap second. -/
def time (cs : List Char) : Option (List Char) := do
  let (_, rest) ← fixed 2 0 23 cs
  let rest ← expect ':' rest
  let (_, rest) ← fixed 2 0 59 rest
  let rest ← expect ':' rest
  let (_, rest) ← fixed 2 0 60 rest
  match rest with
  | '.' :: c :: rest => if c.isDigit then return rest.dropWhile Char.isDigit else none
  | rest => return rest

/-- What follows a distance from universal time, if one is written. -/
def offset (cs : List Char) : Option (List Char) :=
  match cs with
  | [] => some []
  | c :: rest =>
    if c = 'Z' ∨ c = 'z' then some rest
    else if c = '+' ∨ c = '-' then do
      let (_, rest) ← fixed 2 0 23 rest
      let rest ← expect ':' rest
      let (_, rest) ← fixed 2 0 59 rest
      return rest
    else some cs

/-- What follows a time of day behind a date, with its mark, if one is written. -/
def timeOfDate (cs : List Char) : List Char :=
  match cs with
  | [] => []
  | c :: rest =>
    if c = 'T' ∨ c = 't' ∨ c = ' ' then (time rest >>= offset).getD cs else cs

/-- What follows a date, with or without a time, or a time alone. -/
def moment (cs : List Char) : Option (List Char) := timeOfDate <$> date cs <|> time cs

end MailQueue.Toml

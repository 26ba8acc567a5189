/-!
# Reading numbers

`scaled` gives the float of a literal in a letter: as many digits as a 64-bit word holds are taken
as one number, which is then multiplied or divided by a power of ten, so that up to three roundings
happen. `exact` rounds once.

* `gather` collects digits into a word and counts those that no longer fit;
* `scaled` refuses a magnitude that is too large and gives zero for one that is too small.
-/

namespace MailQueue.Number

def digitValue (c : Char) : Nat := c.toNat - '0'.toNat

/-- The value of a digit of a base up to sixteen, its letters in either case. -/
def digitIn (base : Nat) (c : Char) : Option Nat :=
  let n :=
    if c.isDigit then digitValue c
    else if 'a' ≤ c ∧ c ≤ 'f' then c.toNat - 'a'.toNat + 10
    else if 'A' ≤ c ∧ c ≤ 'F' then c.toNat - 'A'.toNat + 10
    else base
  if n < base then some n else none

/-- The digits read as one number as long as it fits a 64-bit word, and how many were left. -/
def gather (acc : Nat) : List Char → Nat × Nat
  | [] => (acc, 0)
  | c :: rest =>
    let next := acc * 10 + digitValue c
    if next < UInt64.size then gather next rest else (acc, rest.length + 1)

/-- Whether a word of 64 bits with its sign holds an integer. -/
def fitsWord64 (i : Int) : Bool :=
  decide (-9223372036854775808 ≤ i) && decide (i ≤ 9223372036854775807)

/-- All digits read as one number. -/
def digitsValue (ds : List Char) : Nat := ds.foldl (fun acc c => acc * 10 + digitValue c) 0

/-- The float nearest to `10 ^ n`. -/
def powerOfTen (n : Nat) : Float := Float.ofScientific 1 false n

/-- `x * 10 ^ e`, in steps of at most `10 ^ 308`; none when that is too large. -/
def timesPowerOfTen (x : Float) (e : Int) : Nat → Option Float
  | 0 => some x
  | fuel + 1 =>
    if e.natAbs ≤ 308 then
      if 0 ≤ e then
        let y := x * powerOfTen e.natAbs
        if y.isInf then none else some y
      else some (x / powerOfTen e.natAbs)
    else if x == 0 then some x
    else if 0 ≤ e then none
    else timesPowerOfTen (x / powerOfTen 308) (e + 308) fuel

/-- The float of `significand * 10 ^ e`, for a significand of at most 64 bits. After two steps
nothing but zero is left of it, so four are enough. -/
def scaled (negative : Bool) (significand : Nat) (e : Int) : Option Float :=
  (timesPowerOfTen significand.toUInt64.toFloat e 4).map fun x => if negative then -x else x

/-- The float of a literal with these digits before and after the point and this exponent. -/
def literal (negative : Bool) (whole fraction : List Char) (e : Int) : Option Float :=
  let (significand, left) := gather 0 whole
  let (significand', left') := gather significand fraction
  scaled negative significand' (e + left - ((fraction.length : Int) - left'))

/-- The float nearest to `digits * 10 ^ e`; infinite when that is too large. -/
def exact (negative : Bool) (digits : Nat) (e : Int) : Float :=
  let x := if digits = 0 then 0
    else if 400 < e then Float.ofScientific 1 false 400
    else if (digits.log2 : Int) + 3 * e < -1200 then 0
    else if 0 ≤ e then Float.ofScientific digits false e.toNat
    else Float.ofScientific digits true (-e).toNat
  if negative then -x else x

end MailQueue.Number

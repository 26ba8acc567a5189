import MailQueue.Number.Power

/-!
# The shortest decimal of a float

A finite float other than zero is `m * 2 ^ q`. The decimals that read back to it lie in an interval
around it: halfway to its neighbours on both sides, the ends included when `m` is even. Of the
decimals in the interval the one with the fewest digits is taken, and of those the nearest.

* `Parts` holds `m` and `q`, and `Parts.ofBits` reads them off the bits;
* `shortest` is the decimal `digits * 10 ^ exponent`;
* `shortest` looks on each decimal grid, coarse to fine, only at the two neighbours of the value:
  if a point of a grid lies in the interval, one of them does.
-/

namespace MailQueue.Number

/-- The magnitude `m * 2 ^ q` of a finite float. -/
structure Parts where
  m : Nat
  q : Int
  /-- The float below is only half as far as the float above. -/
  narrowBelow : Bool
  deriving DecidableEq, Repr

/-- The magnitude of the float with these bits; its exponent field is taken to be finite. -/
def Parts.ofBits (bits : UInt64) : Parts :=
  let fraction : Nat := bits.toNat % twoTo 52
  let exponent : Nat := bits.toNat / twoTo 52 % twoTo 11
  if exponent = 0 then ⟨fraction, -1074, false⟩
  else ⟨twoTo 52 + fraction, exponent - 1075, decide (fraction = 0) && decide (1 < exponent)⟩

/-- A decimal `digits * 10 ^ exponent`. -/
structure Decimal where
  digits : Nat
  exponent : Int
  deriving DecidableEq, Repr

/-- How many decimal digits `n` has; zero has one. -/
def digitCount (n : Nat) : Nat := (Nat.toDigits 10 n).length

/-- The number of digits before the point, or less the zeros after it: `10 ^ (k - 1) ≤ v < 10 ^ k`
for the value `v`. -/
def Parts.magnitude (p : Parts) : Int :=
  let shifted :=
    if 0 ≤ p.q then p.m * twoTo p.q.toNat * tenTo 400 else p.m * tenTo 400 / twoTo (-p.q).toNat
  (digitCount shifted : Int) - 400

/-- Of the points `d * a`, with `d` as near as may be to `v / a`, one that lies between `lo` and
`hi`, the nearer of two. The ends count when `closed`. -/
def near (a lo v hi : Nat) (closed : Bool) : Option Nat :=
  let inside := fun x : Nat => if closed then decide (lo ≤ x) && decide (x ≤ hi)
    else decide (lo < x) && decide (x < hi)
  let d := v / a
  let below := inside (d * a)
  let above := inside ((d + 1) * a)
  if below && above then
    if v - d * a < (d + 1) * a - v then some d
    else if (d + 1) * a - v < v - d * a then some (d + 1)
    else some (if d % 2 = 0 then d else d + 1)
  else if below then some d
  else if above then some (d + 1)
  else none

/-- The point of the grid `10 ^ e` that reads back, if there is one. -/
def Parts.onGrid (p : Parts) (e : Int) : Option Nat :=
  let a := tenTo e.toNat * twoTo (2 - p.q).toNat
  let b := tenTo (-e).toNat * twoTo (p.q - 2).toNat
  let lo := 4 * p.m - (if p.narrowBelow then 1 else 2)
  near a (lo * b) (4 * p.m * b) ((4 * p.m + 2) * b) (p.m % 2 == 0)

/-- Tries the grids of `n`, `n + 1`, … digits, `fuel` of them. -/
def Parts.search (p : Parts) (k : Int) : Nat → Nat → Option Decimal
  | 0, _ => none
  | fuel + 1, n =>
    match p.onGrid (k - n) with
    | some d => some ⟨d, k - n⟩
    | none => p.search k fuel (n + 1)

/-- Takes the zeros off the end of the digits. -/
def Decimal.trim (d : Decimal) : Nat → Decimal
  | 0 => d
  | fuel + 1 => if d.digits % 10 = 0 then Decimal.trim ⟨d.digits / 10, d.exponent + 1⟩ fuel else d

/-- The shortest decimal that reads back to the finite, positive float with these bits. -/
def shortest (bits : UInt64) : Decimal :=
  let p := Parts.ofBits bits
  match p.search p.magnitude 17 1 with
  | some d => d.trim 17
  | none => ⟨p.m, p.q⟩

end MailQueue.Number

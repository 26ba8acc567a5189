import MailQueue.Number.Shortest

/-!
# How numbers are written

The text of a float is its shortest decimal. `Style` says where plain notation ends; the one style
of this library is `Style.persisted`, for letters, templates and messages about a wrong value.
-/

namespace MailQueue.Number

structure Style where
  /-- The smallest exponent of the leading digit that is written plainly. -/
  plainFrom : Int
  /-- The smallest larger one that is not. -/
  plainBelow : Int
  deriving DecidableEq, Repr

/-- Plain from `0.00001` up to below `10 ^ 16`, else with an exponent that always has its sign. -/
def Style.persisted : Style := ⟨-5, 16⟩

def natDigits (n : Nat) : List Char := Nat.toDigits 10 n

def intDigits : Int → List Char
  | .ofNat n => natDigits n
  | .negSucc n => '-' :: natDigits (n + 1)

/-- The decimal in plain notation, with at least one digit on each side of the point. -/
def plainDigits (d : Decimal) : List Char :=
  let ds := natDigits d.digits
  if 0 ≤ d.exponent then ds ++ List.replicate d.exponent.toNat '0' ++ ['.', '0']
  else
    let places := (-d.exponent).toNat
    if places < ds.length then
      ds.take (ds.length - places) ++ ['.'] ++ ds.drop (ds.length - places)
    else ['0', '.'] ++ List.replicate (places - ds.length) '0' ++ ds

/-- The decimal with an exponent: one digit, the others after a point if there are others. -/
def exponentDigits (d : Decimal) : List Char :=
  let ds := natDigits d.digits
  let lead := d.exponent + (ds.length - 1 : Nat)
  let mantissa := match ds with
    | [c] => [c]
    | c :: rest => c :: '.' :: rest
    | [] => []
  mantissa ++ ['e'] ++ (if 0 ≤ lead then ['+'] else []) ++ intDigits lead

/-- A decimal in the notation that the style asks for. -/
def Style.decimal (s : Style) (d : Decimal) : List Char :=
  let lead := d.exponent + ((natDigits d.digits).length - 1 : Nat)
  if s.plainFrom ≤ lead ∧ lead < s.plainBelow then plainDigits d else exponentDigits d

/-- The text of a finite float; zero keeps its sign. -/
def Style.float (s : Style) (x : Float) : List Char :=
  let bits := x.toBits
  let sign := if twoTo 63 ≤ bits.toNat then ['-'] else []
  sign ++ if bits.toNat % twoTo 63 = 0 then ['0', '.', '0'] else s.decimal (shortest bits)

end MailQueue.Number

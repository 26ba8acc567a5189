import MailQueue.Text.Quoted

/-!
# Task identifiers

An identifier is a number of 128 bits: the milliseconds of its making in the upper 48 and 80 bits
of chance below. It is written as 26 digits of base 32, in an alphabet without `I`, `L`, `O` and
`U`.

* `TaskId.text` writes and `TaskId.parse?` reads an identifier; letters may be of either case, and
  what goes beyond 128 bits is dropped;
* `TaskId.length_digits`: the written form has 26 characters.
-/

namespace MailQueue

/-- The identifier of a queued task. -/
structure TaskId where
  bits : BitVec 128
  deriving DecidableEq, Repr

namespace TaskId

instance : Inhabited TaskId := ⟨⟨0⟩⟩

/-- Identifiers are ordered as numbers, hence by the time of their making. -/
instance : Ord TaskId := ⟨fun a b => compare a.bits.toNat b.bits.toNat⟩

instance : LE TaskId := ⟨fun a b => a.bits.toNat ≤ b.bits.toNat⟩
instance (a b : TaskId) : Decidable (a ≤ b) :=
  inferInstanceAs (Decidable (a.bits.toNat ≤ b.bits.toNat))

/-- The identifier with this number; bits above the lowest 128 are dropped. -/
def ofNat (n : Nat) : TaskId := ⟨BitVec.ofNat 128 n⟩

/-- The digits of base 32. -/
def alphabet : List Char := "0123456789ABCDEFGHJKMNPQRSTVWXYZ".toList

def digit (n : Nat) : Char := alphabet.getD (n % 32) '0'

def digitValue? (c : Char) : Option Nat :=
  let c := if 'a' ≤ c ∧ c ≤ 'z' then Char.ofNat (c.toNat - 32) else c
  alphabet.findIdx? (· == c)

/-- The last `count` digits of `n`, most significant first. -/
def digitsOf (n : Nat) : Nat → List Char
  | 0 => []
  | count + 1 => digitsOf (n / 32) count ++ [digit n]

def digits (id : TaskId) : List Char := digitsOf id.bits.toNat 26

def text (id : TaskId) : String := String.ofList id.digits

/-- Why a text is no identifier. -/
inductive ParseCause where
  | length
  | character
  deriving DecidableEq, Repr

structure ParseError where
  input : String
  cause : ParseCause
  deriving DecidableEq, Repr

def ParseCause.message : ParseCause → String
  | .length => "invalid length"
  | .character => "invalid character"

def ParseError.message (e : ParseError) : String :=
  "invalid task id " ++ Text.quoted e.input ++ ": " ++ e.cause.message

/-- The number that the digits write. -/
def valueOf? (cs : List Char) : Option Nat :=
  cs.foldlM (fun acc c => (digitValue? c).map (acc * 32 + ·)) 0

/-- Reads an identifier. The length is that of the text in bytes, and is looked at first. -/
def parse (s : String) : Except ParseError TaskId :=
  if s.utf8ByteSize ≠ 26 then .error ⟨s, .length⟩
  else match valueOf? s.toList with
    | some n => .ok (ofNat n)
    | none => .error ⟨s, .character⟩

def parse? (s : String) : Option TaskId := (parse s).toOption

def timestampMs (id : TaskId) : Nat := (id.bits.extractLsb' 80 48).toNat

/-- The identifier made at this time, of which 48 bits are kept, with this chance. -/
def fromParts (ms chance : Nat) : TaskId := ⟨BitVec.ofNat 48 ms ++ BitVec.ofNat 80 chance⟩

/-- The first ten digits, which depend on the time of making alone. -/
def head (id : TaskId) : String := String.ofList (id.digits.take 10)

theorem length_digitsOf (n count : Nat) : (digitsOf n count).length = count := by
  induction count generalizing n with
  | zero => rfl
  | succ count ih => simp [digitsOf, ih]

theorem length_digits (id : TaskId) : id.digits.length = 26 := length_digitsOf _ _

end TaskId

end MailQueue

import MailQueue.Config
import MailQueue.Text.Quoted
import MailQueue.Transport

/-!
# The choice of a transport

* `TransportPool.select` gives the transport of an attempt and the cursor afterwards: in turn under
  the balancer, else the one the task names;
* `TransportPool.afterFailure` gives the transport that a task names from then on: under backup the
  next one after each `failsToNext` failures.
-/

namespace MailQueue

/-- The transports of a queue and how they take turns. -/
structure TransportPool where
  transports : List Transport
  strategy : Strategy
  /-- How many failures make a task move on; never zero. -/
  failsToNext : UInt32
  failsToNext_pos : 0 < failsToNext.toNat := by decide

namespace TransportPool

/-- A pool; a threshold of zero counts as one. -/
def new (transports : List Transport) (strategy : Strategy) (failsToNext : UInt32) :
    TransportPool :=
  if h : 0 < failsToNext.toNat then ⟨transports, strategy, failsToNext, h⟩
  else ⟨transports, strategy, 1, by decide⟩

def size (p : TransportPool) : Nat := p.transports.length

def get? (p : TransportPool) (index : Nat) : Option Transport := p.transports[index]?

/-- The transport for an attempt of a task that names `stored`, and the cursor afterwards. -/
def select (p : TransportPool) (cursor stored : Nat) : Nat × Nat :=
  match p.strategy with
  | .balancer =>
    if p.size = 0 then (stored, cursor)
    else ((cursor + 1) % p.size, (cursor + 1) % p.size)
  | .backup => (stored, cursor)

/-- How many indices there are: an index is a word of 64 bits, and after the last comes zero. -/
def indexCount : Nat := UInt64.size

/-- The transport that a task names after its attempt number `attempts` failed on `used`. -/
def afterFailure (p : TransportPool) (used : Nat) (attempts : UInt32) : Nat :=
  match p.strategy with
  | .backup =>
    if attempts.toNat % p.failsToNext.toNat = 0 ∧ p.size ≠ 0 then
      (used + 1) % indexCount % p.size
    else used
  | .balancer => used

def debug (p : TransportPool) : String :=
  Text.record "TransportPool" [
    ("transports", Text.quotedList (p.transports.map Transport.name)),
    ("strategy", p.strategy.label),
    ("fails_to_next", String.ofList (Number.natDigits p.failsToNext.toNat))]

theorem select_lt {p : TransportPool} {cursor stored : Nat} (h : stored < p.size) :
    (p.select cursor stored).1 < p.size := by
  unfold select
  split
  · split
    · exact h
    · exact Nat.mod_lt _ (by omega)
  · exact h

theorem afterFailure_lt {p : TransportPool} {used : Nat} {attempts : UInt32} (h : used < p.size) :
    p.afterFailure used attempts < p.size := by
  unfold afterFailure
  split
  · split
    · exact Nat.mod_lt _ (by omega)
    · exact h
  · exact h

end TransportPool

end MailQueue

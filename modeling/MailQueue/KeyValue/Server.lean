import MailQueue.KeyValue.Command
import MailQueue.KeyValue.Glob
import MailQueue.Value.Entries

/-!
# A key-value server

The server that clients of this library need: texts under keys, some with an expiry, and the two
scripts. It also lets a rehearsal name commands that fail and writes that another client makes just
before a script.

* `Server.answer` runs a command at an instant;
* `Server.runScript` is what the scripts do, in one step;
* `Server.live` are the entries that have not expired.
-/

namespace MailQueue.KeyValue

/-- What stands under a key. -/
structure Cell where
  value : String
  /-- The key is gone from this instant on, in milliseconds. -/
  expires : Option Int := none
  deriving DecidableEq, Repr

/-- A write of another client. -/
inductive ForeignWrite where
  | set (key value : String) (expires : Option Int)
  | del (keys : List String)
  deriving DecidableEq, Repr

/-- The state of a server. -/
structure Server where
  entries : Entries Cell := []
  /-- The scripts that were made known. -/
  known : List Script := []
  /-- The names of commands that will fail, the next at the head. -/
  failing : List String := []
  /-- Writes of other clients before each script. -/
  beforeScript : List (List ForeignWrite) := []
  pong : String := "PONG"
  /-- How many keys a page holds. -/
  pageSize : Nat := 1000

namespace Server

/-- The entries that have not expired. -/
def live (now : Int) (entries : Entries Cell) : Entries Cell :=
  entries.filter fun e => match e.2.expires with
    | some t => decide (now < t)
    | none => true

def get? (s : Server) (now : Int) (key : String) : Option String :=
  ((live now s.entries).get? key).map Cell.value

def set (s : Server) (now : Int) (key value : String) (expires : Option Int) : Server :=
  { s with entries := live now ((live now s.entries).put key ⟨value, expires⟩) }

/-- Removes a key; one if it was there. -/
def del (s : Server) (now : Int) (key : String) : Nat × Server :=
  (if (s.get? now key).isSome then 1 else 0, { s with entries := (live now s.entries).erase key })

/-- Whether a command of this name fails now; if so its name leaves the queue. -/
def takeFailure (s : Server) (name : String) : Bool × Server :=
  match s.failing with
  | head :: rest => if head = name then (true, { s with failing := rest }) else (false, s)
  | [] => (false, s)

/-- Whether one of these commands fails, all of them being sent. -/
def takeFailures (s : Server) (names : List String) : Bool × Server :=
  names.foldl (fun (acc : Bool × Server) name =>
    let (failed, s) := acc.2.takeFailure name
    (acc.1 || failed, s)) (false, s)

/-- A write of another client. An expiry that is not positive is refused. -/
def foreign (now : Int) (s : Server) : ForeignWrite → Server
  | .set key value expires => match expires with
    | some t => if t ≤ 0 then s else s.set now key value expires
    | none => s.set now key value none
  | .del keys => keys.foldl (fun s key => (s.del now key).2) s

/-- The writes of other clients that come before a script. -/
def beforeRun (s : Server) (now : Int) : Server :=
  match s.beforeScript with
  | writes :: rest => writes.foldl (foreign now) { s with beforeScript := rest }
  | [] => s

/-- What a script does: nothing unless the letter is as expected. -/
def runScript (s : Server) (now : Int) (script : Script)
    (letterKey markKey expected replacement mark : String) : Int × Server :=
  if s.get? now letterKey ≠ some expected then (0, s)
  else match script with
    | .replace =>
      let s := s.set now letterKey replacement none
      (1, if mark.isEmpty then (s.del now markKey).2 else s.set now markKey mark none)
    | .remove => (1, ((s.del now letterKey).2.del now markKey).2)

/-- A page of keys from a cursor on, with the first key of the next page at its end, and the
cursor of that page. -/
def page (s : Server) (now : Int) (cursor : Nat) (pattern : String) : Nat × List String :=
  let keys := (live now s.entries).keys.mergeSort fun a b => a ≤ b
  let size := max s.pageSize 1
  let next := if cursor + size < keys.length then cursor + size else 0
  (next, ((keys.drop cursor).take (size + 1)).filter fun k =>
    globMatches pattern.toList k.toList)

/-- One write of a transaction; none if it is refused. -/
def write (now : Int) (s : Server) : Write → Option Nat × Server
  | .set key value expires => match expires with
    | some t => if t ≤ 0 then (none, s) else (some 1, s.set now key value expires)
    | none => (some 1, s.set now key value none)
  | .del key =>
    let (n, s) := s.del now key
    (some n, s)

/-- The writes of a transaction; a refused one does not stop the others. -/
def writeAll (now : Int) (s : Server) : List Write → List (Option Nat) × Server
  | [] => ([], s)
  | w :: rest =>
    let (n, s) := write now s w
    let (ns, s) := writeAll now s rest
    (n :: ns, s)

def answer (now : Int) : (c : Command) → Server → c.Answer × Server
  | .get key, s =>
    let (failed, s) := s.takeFailure "GET"
    (if failed then none else some (s.get? now key), s)
  | .scan cursor pattern _, s =>
    let (failed, s) := s.takeFailure "SCAN"
    (if failed then none else some (s.page now cursor pattern), s)
  | .run script letterKey markKey expected replacement mark, s =>
    let (failed, s) := s.takeFailure "EVALSHA"
    if failed then (.failed, s)
    else if script ∉ s.known then (.unknown, s)
    else
      let s := s.beforeRun now
      let (n, s) := s.runScript now script letterKey markKey expected replacement mark
      (.applied n, s)
  | .load script, s =>
    let (failed, s) := s.takeFailure "SCRIPT"
    if failed then (none, s) else (some (), { s with known := script :: s.known })
  | .transaction writes, s =>
    let (failed, s) := s.takeFailures ("MULTI" :: writes.map Write.name ++ ["EXEC"])
    if failed then (none, s)
    else
      let (ns, s) := writeAll now s writes
      (ns.mapM id, s)
  | .ping, s =>
    let (failed, s) := s.takeFailure "PING"
    (if failed then none else some s.pong, s)

end Server

end MailQueue.KeyValue

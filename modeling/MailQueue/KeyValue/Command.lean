import MailQueue.Program

/-!
# Commands of a key-value server

What a client sends to the server. A script and a transaction each run as one step.

* `Command` lists the commands and `Command.Answer` the type of each answer;
* `Script` names the two compare-and-set scripts, both over the keys of a letter and its mark.
-/

namespace MailQueue.KeyValue

/-- The scripts. Both compare the letter with an expected text first and do nothing if it
differs. -/
inductive Script where
  /-- Sets the letter, and sets or, when the new one is empty, removes the mark. -/
  | replace
  /-- Removes the letter and the mark. -/
  | remove
  deriving DecidableEq, Repr

/-- A write inside a transaction. -/
inductive Write where
  /-- Sets a key; it is gone from the instant `expires` on. -/
  | set (key value : String) (expires : Option Int)
  /-- Removes a key. -/
  | del (key : String)
  deriving DecidableEq, Repr

def Write.name : Write → String
  | set _ _ _ => "SET"
  | del _ => "DEL"

inductive Command where
  | get (key : String)
  /-- Lists keys that match a pattern, from a cursor on. -/
  | scan (cursor : Nat) (pattern : String) (count : Nat)
  /-- Runs a script that the server knows already. -/
  | run (script : Script) (letterKey markKey expected : String) (replacement mark : String)
  /-- Makes a script known. -/
  | load (script : Script)
  | transaction (writes : List Write)
  | ping
  deriving DecidableEq, Repr

inductive RunResult where
  /-- One if the letter was as expected, else zero. -/
  | applied (count : Int)
  /-- The server does not know the script. -/
  | unknown
  | failed
  deriving DecidableEq, Repr

/-- The answers; none stands for a command that could not be sent or was refused. -/
@[reducible] def Command.Answer : Command → Type
  | get _ => Option (Option String)
  | scan _ _ _ => Option (Nat × List String)
  | run _ _ _ _ _ _ => RunResult
  | load _ => Option Unit
  | transaction _ => Option (List Nat)
  | ping => Option String

abbrev Work := Program Command Command.Answer

end MailQueue.KeyValue

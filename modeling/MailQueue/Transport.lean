import MailQueue.Mail

/-!
# Transports

One way of sending mail: its name, the fields it adds to each message, and the ways an attempt to
send can end.

* `SendReport` is what a transport reports of a message it took;
* `SendOutcome` is how a call ends, a crash of the transport included.
-/

namespace MailQueue

/-- A transport as the queue sees it. -/
structure Transport where
  name : String
  /-- Fields of each message, before those of the mail. -/
  defaults : Option Payload
  deriving Inhabited

/-- Why a transport could not send. -/
inductive TransportError where
  | connection (detail : String)
  | rejected (detail : String)
  | other (detail : String)
  deriving DecidableEq, Repr

def TransportError.message : TransportError → String
  | connection detail => "connection failed: " ++ detail
  | rejected detail => "rejected by server: " ++ detail
  | other detail => detail

/-- What a transport reports of a message it took. -/
structure SendReport where
  accepted : List String
  rejected : List String := []
  response : Option String := none
  deriving DecidableEq, Repr

/-- The persisted form of a report; what is empty is left out. -/
def SendReport.toValue (r : SendReport) : Value :=
  .object <|
    [("accepted", .list (r.accepted.map .text))] ++
    (if r.rejected.isEmpty then [] else [("rejected", .list (r.rejected.map .text))]) ++
    (r.response.map fun s => ("response", Value.text s)).toList

/-- How the call of a transport ends. -/
inductive SendOutcome where
  | report (r : SendReport)
  | error (e : TransportError)
  /-- The transport crashed. -/
  | crash (message : String)
  deriving DecidableEq, Repr

end MailQueue

import MailQueue.Transport

/-!
# Stand-ins for transports

A stand-in answers by a script, one reply a message, and by a fixed reply once the script is used
up. It keeps what it was handed.

* `StandIn.send` hands it a message, which is kept whatever the reply.
-/

namespace MailQueue.Rehearsal

/-- How a stand-in answers one message. -/
inductive Reply where
  /-- Every address of the message is accepted. -/
  | accept
  /-- No address is accepted. -/
  | acceptNone
  | fail (e : TransportError)
  | crash
  deriving DecidableEq, Repr

/-- A transport that sends nothing. -/
structure StandIn where
  transport : Transport
  /-- The replies to the next messages. -/
  script : List Reply := []
  /-- The reply after those of the script. -/
  fallback : Reply := .accept
  /-- The messages handed over since the last look, in order. -/
  messages : List Mail := []

namespace StandIn

/-- A stand-in that reaches no server once its script is used up. -/
def failing (transport : Transport) : StandIn :=
  { transport := transport, fallback := .fail (.connection "connection refused") }

/-- What a reply comes to for a message. -/
def outcome (s : StandIn) (message : Mail) : Reply → SendOutcome
  | .accept => .report { accepted := message.recipient.addresses }
  | .acceptNone => .report { accepted := [] }
  | .fail e => .error e
  | .crash => .crash ("transport \x60" ++ s.transport.name ++ "\x60 blew up")

def send (s : StandIn) (message : Mail) : SendOutcome × StandIn :=
  let kept := { s with messages := s.messages ++ [message] }
  match s.script with
  | reply :: rest => (s.outcome message reply, { kept with script := rest })
  | [] => (s.outcome message s.fallback, kept)

def follow (s : StandIn) (replies : List Reply) : StandIn :=
  { s with script := s.script ++ replies }

end StandIn

end MailQueue.Rehearsal

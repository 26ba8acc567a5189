import MailQueue.Task.Basic
import MailQueue.Template
import MailQueue.Text.Quoted
import MailQueue.Transport

/-!
# Compiling a task

The mails of a task become one message. The fields of the transport come first and those of each
mail go over them; the bodies are filled in from their own mail and joined, the outer template goes
around the joined body, and the subject for merged mails replaces the others if there are several.

* `Compiler.compile` makes the message;
* `Compiler.Bodies.add` joins the bodies of one more mail;
* `Compiler.wrap`, `Compiler.addSubject` and `Compiler.addSender` are the steps after the last.
-/

namespace MailQueue

/-- What the compilation depends on beside the task and its transport. -/
structure Compiler where
  /-- The outer template of a body. -/
  template : String
  /-- What stands between two bodies. -/
  delimiter : String
  /-- The subject of merged mails. -/
  concatSubject : String
  /-- The sender of a message that names none, by transport. -/
  resolve : Option (Transport → Option String)

namespace Compiler

structure Bodies where
  html : String := ""
  text : String := ""
  deriving DecidableEq, Repr

/-- Joins a body to those before it, unless it is absent or empty. -/
def join (before : String) (between : String) (body : Option String) (values : Payload) :
    String :=
  match nonEmpty? body with
  | some body =>
    (if before.isEmpty then before else before ++ between) ++ Template.render body values
  | none => before

/-- Joins the bodies of one more mail, filled in from its own fields, as is the delimiter. -/
def Bodies.add (c : Compiler) (b : Bodies) (m : Mail) : Bodies where
  html := join b.html (Template.render c.delimiter m.payload) m.html m.payload
  text := join b.text "\r\n" m.text m.payload

/-- The fields without the bodies. -/
def withoutBodies (p : Payload) : Payload := (p.erase "html").erase "text"

/-- The fields of the transport and of each mail in its turn, a later one over an earlier. -/
def layers (transport : Transport) (mails : List Mail) : Payload :=
  mails.foldl (fun acc m => acc.extend (withoutBodies m.payload))
    (withoutBodies (transport.defaults.getD .empty))

/-- Puts the outer template around a body that is there. -/
def wrap (c : Compiler) (template : Option String) (html : String) (p : Payload) : Payload :=
  if html.isEmpty then p
  else
    let inner := p.put "html" (.text html)
    let template := template.getD c.template
    if template.isEmpty then inner
    else inner.put "html" (.text (Template.render template inner))

def addText (text : String) (p : Payload) : Payload :=
  if text.isEmpty then p else p.put "text" (.text text)

/-- Sets the subject for merged mails, if there are several: that of the task, else the general
one. -/
def addSubject (c : Compiler) (task : Task) (p : Payload) : Payload :=
  if 1 < task.fragments.length then
    match (nonEmpty? task.concatSubject).or (nonEmpty? (some c.concatSubject)) with
    | some subject => p.put "subject" (.text subject)
    | none => p
  else p

def hasSender (p : Payload) : Bool :=
  match p.get? "from" with
  | none => false
  | some .null => false
  | some (.text s) => !s.isEmpty
  | some _ => true

/-- Adds the sender that the resolver gives, if none stands in the fields. -/
def addSender (c : Compiler) (transport : Transport) (p : Payload) : Payload :=
  if hasSender p then p
  else
    match c.resolve.bind fun resolve => resolve transport with
    | some sender => p.put "from" (.text sender)
    | none => p

def fields (c : Compiler) (transport : Transport) (task : Task) : Payload :=
  let bodies := task.fragments.foldl (Bodies.add c) {}
  c.addSender transport <| c.addSubject task <| addText bodies.text <|
    c.wrap task.template bodies.html <| layers transport task.fragments

def compile (c : Compiler) (transport : Transport) (task : Task) : Except ReadError Mail :=
  Mail.ofEntries (c.fields transport task).entries

def debug (c : Compiler) : String :=
  Text.record "MailCompiler" [
    ("template", Text.quoted c.template), ("delimiter", Text.quoted c.delimiter),
    ("concat_subject", Text.quoted c.concatSubject),
    ("from", if c.resolve.isSome then "true" else "false")]

end Compiler

end MailQueue

import MailQueue.Json.Writer
import MailQueue.Text.Blank

/-!
# Templates

A placeholder is a name between two or three braces, with at most one blank on each inner side.
With three braces the value stands in the text as it is, with two its tags are taken out first. A
placeholder without a value stays.

* `Template.render` fills the placeholders of three braces, then those of two;
* `Template.placeholder?` recognises a placeholder at the front of a text;
* `Template.stripTags` takes out each `<` up to the first `>` after it.
-/

namespace MailQueue.Template

/-- The characters of a placeholder's name. -/
def isNameChar (c : Char) : Bool := c.isAlphanum || c == '-' || c == '_'

/-- What follows `count` times the character `c`. -/
def dropExactly (c : Char) : Nat → List Char → Option (List Char)
  | 0, cs => some cs
  | count + 1, d :: cs => if d = c then dropExactly c count cs else none
  | _ + 1, [] => none

/-- The characters without the first, if that is blank. -/
def dropBlank : List Char → List Char
  | c :: cs => if Text.isBlank c then cs else c :: cs
  | [] => []

/-- The name of the placeholder of so many braces at the front of the characters, and what
follows it. -/
def placeholder? (braces : Nat) (cs : List Char) : Option (List Char × List Char) := do
  let rest ← dropExactly '{' braces cs
  let inner := dropBlank rest
  let name := inner.takeWhile isNameChar
  if name.isEmpty then none
  let rest ← dropExactly '}' braces (dropBlank (inner.dropWhile isNameChar))
  return (name, rest)

/-- Fills the placeholders of so many braces, from the left; one that `fill` has no text for stays,
and what is filled in is not looked at again. The first argument counts the characters still to be
passed over because they belong to a placeholder. -/
def substitute (braces : Nat) (fill : List Char → Option (List Char)) :
    Nat → List Char → List Char
  | _, [] => []
  | skip + 1, _ :: cs => substitute braces fill skip cs
  | 0, c :: cs =>
    match placeholder? braces (c :: cs) with
    | some (name, rest) =>
      let length := (c :: cs).length - rest.length
      (fill name).getD ((c :: cs).take length) ++ substitute braces fill (length - 1) cs
    | none => c :: substitute braces fill 0 cs

/-- Takes out the tags; the first argument counts the characters still to be passed over because
they belong to a tag. -/
def withoutTags : Nat → List Char → List Char
  | _, [] => []
  | skip + 1, _ :: cs => withoutTags skip cs
  | 0, c :: cs =>
    if c = '<' then
      match cs.findIdx? (· == '>') with
      | some n => withoutTags (n + 1) cs
      | none => c :: withoutTags 0 cs
    else c :: withoutTags 0 cs

def stripTags (s : String) : String := String.ofList (withoutTags 0 s.toList)

/-- The text that a value fills in: null, false, zero, the empty text, lists and objects have
none. -/
def fillText : Value → Option (List Char)
  | .text s => if s.isEmpty then none else some s.toList
  | .int i => if i = 0 then none else some (Number.intDigits i)
  | .float x => if x == 0 then none else some (Json.float x)
  | .bool true => some ['t', 'r', 'u', 'e']
  | _ => none

def lookup (values : Payload) (name : List Char) : Option (List Char) :=
  (values.get? (String.ofList name)).bind fillText

/-- Fills the placeholders of a template, as characters. -/
def renderChars (template : List Char) (values : Payload) : List Char :=
  let raw := substitute 3 (lookup values) 0 template
  substitute 2 (fun name => (lookup values name).map (withoutTags 0)) 0 raw

def render (template : String) (values : Payload) : String :=
  String.ofList (renderChars template.toList values)

/-- A plain layout: the body in the middle of the page, the subject as its title. -/
def shell : String := String.intercalate "\n" [
  "<!DOCTYPE html>",
  "<html lang=\"en\">",
  "<head>",
  "<meta charset=\"utf-8\">",
  "<meta name=\"viewport\" content=\"width=device-width, initial-scale=1\">",
  "<title>\x7b\x7bsubject\x7d\x7d</title>",
  "<style>",
  "body\x7bmargin:0;padding:0;background:#f4f4f4;" ++
    "font-family:Helvetica,Arial,sans-serif;color:#222;\x7d",
  ".mailtime-wrap\x7bmax-width:600px;margin:0 auto;padding:24px;background:#fff;\x7d",
  "hr\x7bborder:0;border-top:1px solid #ddd;margin:24px 0;\x7d",
  "</style>",
  "</head>",
  "<body>",
  "<div class=\"mailtime-wrap\">\x7b\x7b\x7bhtml\x7d\x7d\x7d</div>",
  "</body>",
  "</html>"]

end MailQueue.Template

/-!
# Patterns of keys

A `*` stands for any run of characters, a `?` for any one, and every other character for itself.

`globMatches` recognises the texts of a pattern, `anySuffix` tries the ends of a text.
-/

namespace MailQueue.KeyValue

/-- Whether the test holds of the text or of a part at its end. -/
def anySuffix (test : List Char → Bool) : List Char → Bool
  | [] => test []
  | c :: cs => test (c :: cs) || anySuffix test cs

/-- Whether a text matches a pattern. -/
def globMatches : List Char → List Char → Bool
  | [], cs => cs.isEmpty
  | p :: rest, cs =>
    if p = '*' then anySuffix (globMatches rest) cs
    else match cs with
      | [] => false
      | c :: cs => (p == '?' || p == c) && globMatches rest cs

end MailQueue.KeyValue

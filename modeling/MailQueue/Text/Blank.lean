/-!
# Blank characters

`isBlank` is the White_Space property of Unicode, the class that both the placeholders of a
template and the check for an empty address use.
-/

namespace MailQueue.Text

/-- The characters with the property White_Space. -/
def isBlank (c : Char) : Bool :=
  let n := c.toNat
  (9 ≤ n && n ≤ 13) || n == 0x20 || n == 0x85 || n == 0xA0 || n == 0x1680 ||
    (0x2000 ≤ n && n ≤ 0x200A) || n == 0x2028 || n == 0x2029 || n == 0x202F || n == 0x205F ||
    n == 0x3000

/-- Nothing but blanks stands in the text; the empty text is all blank. -/
def allBlank (s : String) : Bool := s.toList.all isBlank

end MailQueue.Text

/-!
# Powers

The powers by which floats and decimals are scaled.
-/

namespace MailQueue.Number

def twoTo (n : Nat) : Nat := Nat.pow 2 n

def tenTo (n : Nat) : Nat := Nat.pow 10 n

end MailQueue.Number

/-!
# Sets of characters

A set of characters is given by the code points at which membership flips, in
increasing order: a character belongs to it when an odd number of flips is at or
below its code point.
-/

namespace TreeLint

namespace Text

def isWithin (flips : List Nat) (c : Char) : Bool :=
  (flips.takeWhile (· ≤ c.toNat)).length % 2 == 1

end Text

end TreeLint

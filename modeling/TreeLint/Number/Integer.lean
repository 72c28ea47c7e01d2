/-!
# Integer text

Integers of 64 bits with sign, read from digits of any radix up to 36.
-/

namespace TreeLint

namespace Integer

def splitSign : List Char → Bool × List Char
  | '-' :: cs => (true, cs)
  | '+' :: cs => (false, cs)
  | cs => (false, cs)

def digitValue? (c : Char) : Option Nat :=
  let n := c.toNat
  if 48 ≤ n && n ≤ 57 then some (n - 48)
  else if 97 ≤ n && n ≤ 122 then some (n - 87)
  else if 65 ≤ n && n ≤ 90 then some (n - 55)
  else none

def digitBelow? (radix : Nat) (c : Char) : Option Nat :=
  (digitValue? c).filter (· < radix)

def foldDigits? (radix : Nat) : Nat → List Char → Option Nat
  | acc, [] => some acc
  | acc, c :: cs =>
      match digitBelow? radix c with
      | some d => foldDigits? radix (acc * radix + d) cs
      | none => none

def readNat? (radix : Nat) (cs : List Char) : Option Nat :=
  if cs.isEmpty then none else foldDigits? radix 0 cs

def toWord? (n : Int) : Option Int64 :=
  if -0x8000000000000000 ≤ n && n < 0x8000000000000000 then some (Int64.ofInt n) else none

/-- Read an integer: an optional sign and at least one digit, within 64 bits. -/
def read? (radix : Nat) (cs : List Char) : Option Int64 :=
  let (negative, ds) := splitSign cs
  (readNat? radix ds).bind fun n =>
    toWord? (if negative then -(n : Int) else (n : Int))

/-- An integer in decimal digits, with a minus sign if it is negative. -/
def chars (n : Int) : List Char :=
  if n < 0 then '-' :: Nat.toDigits 10 n.natAbs else Nat.toDigits 10 n.natAbs

def text (n : Int) : String :=
  String.ofList (chars n)

end Integer

end TreeLint

import TreeLint.Number.Binary64
import TreeLint.Number.Integer

/-!
# Decimal text to numbers

A decimal is a natural number of digits and a power of ten.  Reading one gives
the nearest double-precision number.
-/

namespace TreeLint

/-- The decimal number `digits * 10 ^ exponent`. -/
structure Decimal where
  digits : Nat
  exponent : Int
deriving DecidableEq, Repr

namespace Decimal

def stripZeros (d : Nat) (e : Int) : Decimal :=
  if h : 0 < d ∧ d % 10 = 0 then stripZeros (d / 10) (e + 1) else ⟨d, e⟩
termination_by d
decreasing_by omega

/-- The same decimal number with no trailing zero among its digits. -/
def normalize (d : Decimal) : Decimal :=
  stripZeros d.digits d.exponent

def point (d : Decimal) : Int :=
  (Nat.toDigits 10 d.digits).length + d.exponent

def ratio (d : Decimal) : Nat × Nat :=
  if 0 ≤ d.exponent then (d.digits * Nat.pow 10 d.exponent.toNat, 1)
  else (d.digits, Nat.pow 10 (-d.exponent).toNat)

end Decimal

namespace Binary64

/--
The number nearest to a decimal.  Decimals of more than 310 places before the
point are infinite, and those that start past the 330th place behind it vanish.
-/
def ofDecimal (negative : Bool) (d : Decimal) : Binary64 :=
  let d := d.normalize
  if d.digits = 0 then zero negative
  else if 310 < d.point then infinity negative
  else if d.point < -330 then zero negative
  else ofRatio negative d.ratio.1 d.ratio.2

def readExponent? (cs : List Char) : Option Int :=
  let (negative, ds) := Integer.splitSign cs
  if ds.isEmpty || !ds.all Char.isDigit then none
  else
    let n : Int := Nat.ofDigitChars 10 ds 0
    some (if negative then -n else n)

def splitDigits (cs : List Char) : List Char × List Char :=
  (cs.takeWhile Char.isDigit, cs.dropWhile Char.isDigit)

def splitFraction : List Char → List Char × List Char
  | '.' :: cs => splitDigits cs
  | cs => ([], cs)

def readDecimal? (cs : List Char) : Option Decimal :=
  let (whole, rest) := splitDigits cs
  let (part, rest) := splitFraction rest
  if whole.isEmpty && part.isEmpty then none
  else
    let digits := Nat.ofDigitChars 10 (whole ++ part) 0
    match rest with
    | [] => some ⟨digits, -part.length⟩
    | c :: cs =>
        if c = 'e' || c = 'E' then
          (readExponent? cs).map fun e => ⟨digits, e - part.length⟩
        else none

/--
Read a number: an optional sign, then a decimal or one of the words `inf`,
`infinity` and `nan` in any letter case.
-/
def read? (cs : List Char) : Option Binary64 :=
  let (negative, body) := Integer.splitSign cs
  let word := String.ofList (body.map Char.toLower)
  if word = "inf" || word = "infinity" then some (infinity negative)
  else if word = "nan" then some (nan negative)
  else (readDecimal? body).map (ofDecimal negative)

end Binary64

end TreeLint

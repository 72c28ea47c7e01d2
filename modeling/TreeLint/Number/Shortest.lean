import TreeLint.Number.Decimal

/-!
# Shortest decimal text

The text of a number has the fewest digits that read back to it.  Of two
candidates with equally many digits the nearer one is taken, and of two equally
near ones the larger.
-/

namespace TreeLint

namespace Binary64

def ratio (x : Binary64) : Nat × Nat :=
  if 1075 ≤ x.scale then (x.significand <<< (x.scale - 1075), 1)
  else (x.significand, 1 <<< (1075 - x.scale))

def exact (x : Binary64) : Decimal :=
  if 1075 ≤ x.scale then ⟨x.significand <<< (x.scale - 1075), 0⟩
  else ⟨x.significand * Nat.pow 5 (1075 - x.scale), -((1075 - x.scale : Nat) : Int)⟩

def overPowerOfTen (num den : Nat) (e : Int) : Nat × Nat :=
  if 0 ≤ e then (num, den * Nat.pow 10 e.toNat) else (num * Nat.pow 10 (-e).toNat, den)

/--
Raise `e` by at most `steps` until the ratio is below `10 ^ e`.
-/
def raisePoint (num den : Nat) : Nat → Int → Int
  | 0, e => e
  | steps + 1, e =>
      let (a, b) := overPowerOfTen num den e
      if b ≤ a then raisePoint num den steps (e + 1) else e

/-- The least `e` with `num / den < 10 ^ e`, for a positive ratio. -/
def pointOf (num den : Nat) : Int :=
  let binary : Int := (num.log2 : Int) - den.log2 - 1
  raisePoint num den 4 (binary * 30103 / 100000 - 1)

/--
The candidate with `n` digits: of the two neighbours of the ratio on the grid
of `n` digits, the nearer one that reads back as `x`.
-/
def candidate? (x : Binary64) (num den : Nat) (point : Int) (n : Nat) : Option Decimal :=
  let e := point - n
  let (a, b) := overPowerOfTen num den e
  let below : Decimal := (Decimal.mk (a / b) e).normalize
  let above : Decimal := (Decimal.mk (a / b + 1) e).normalize
  let readsBack (d : Decimal) : Bool := ofDecimal x.negative d == x
  match readsBack below, readsBack above with
  | true, true => some (if 2 * (a % b) < b then below else above)
  | true, false => some below
  | false, true => some above
  | false, false => none

/-- The decimal with the fewest digits that reads back as a finite number. -/
def shortest (x : Binary64) : Decimal :=
  let (num, den) := x.ratio
  let point := pointOf num den
  match (List.range 17).findSome? fun n => candidate? x num den point (n + 1) with
  | some d => d
  | none => x.exact.normalize

def positional (digits : List Char) (point : Int) : List Char :=
  if point ≤ 0 then ['0', '.'] ++ List.replicate (-point).toNat '0' ++ digits
  else if point < digits.length then
    digits.take point.toNat ++ '.' :: digits.drop point.toNat
  else digits ++ List.replicate (point - digits.length).toNat '0' ++ ['.', '0']

def scientific (digits : List Char) (point : Int) : List Char :=
  digits.take 1 ++ (if digits.length ≤ 1 then [] else '.' :: digits.drop 1) ++
    'e' :: Integer.chars (point - 1)

/-- Text of a positive decimal: positional from `10 ^ -4` up to below `10 ^ 16`. -/
def decimalText (d : Decimal) : List Char :=
  let digits := Nat.toDigits 10 d.digits
  if -3 ≤ d.point && d.point ≤ 16 then positional digits d.point
  else scientific digits d.point

/-- The shortest text that reads back to the number, always with a point or an exponent. -/
def chars (x : Binary64) : List Char :=
  if x.isNaN then ['N', 'a', 'N']
  else
    let sign := if x.negative then ['-'] else []
    if !x.isFinite then sign ++ ['i', 'n', 'f']
    else if x.isZero then sign ++ ['0', '.', '0']
    else sign ++ decimalText x.shortest

def text (x : Binary64) : String :=
  String.ofList x.chars

end Binary64

end TreeLint

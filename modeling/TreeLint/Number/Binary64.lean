/-!
# Double-precision numbers

A binary floating-point number of 64 bits, as its three fields.  The program
reads, prints and compares such numbers and never calculates with them, so
everything here is exact arithmetic on natural numbers.

A finite number is `significand * 2 ^ (scale - 1075)`.
-/

namespace TreeLint

/--
Sign, biased exponent of 11 bits and fraction of 52 bits of a double-precision
number.
-/
structure Binary64 where
  negative : Bool
  exponent : Fin 2048
  fraction : Fin 0x10000000000000
deriving DecidableEq, Repr

namespace Binary64

def zero (negative : Bool) : Binary64 :=
  ⟨negative, 0, 0⟩

def infinity (negative : Bool) : Binary64 :=
  ⟨negative, 2047, 0⟩

def nan (negative : Bool) : Binary64 :=
  ⟨negative, 2047, ⟨0x8000000000000, by decide⟩⟩

def isFinite (x : Binary64) : Bool :=
  x.exponent.val < 2047

def isNaN (x : Binary64) : Bool :=
  x.exponent.val == 2047 && x.fraction.val != 0

def isZero (x : Binary64) : Bool :=
  x.exponent.val == 0 && x.fraction.val == 0

/-- Equality of values: NaN equals nothing and the two zeros are equal. -/
def same (x y : Binary64) : Bool :=
  !x.isNaN && !y.isNaN && ((x.isZero && y.isZero) || x == y)

/-- Number of units in the last place that a finite number holds. -/
def significand (x : Binary64) : Nat :=
  if x.exponent.val = 0 then x.fraction.val else 0x10000000000000 + x.fraction.val

/-- Biased exponent of the unit in the last place of a finite number. -/
def scale (x : Binary64) : Nat :=
  max x.exponent.val 1

/--
The number whose exponent and fraction, read as one natural number, are `code`.
Codes grow with the magnitude, and the ones past the finite numbers give
infinity.
-/
def ofCode (negative : Bool) (code : Nat) : Binary64 :=
  if h : code < 2047 * 0x10000000000000 then
    ⟨negative, ⟨code / 0x10000000000000, by omega⟩,
      ⟨code % 0x10000000000000, Nat.mod_lt _ (by decide)⟩⟩
  else infinity negative

/-- The natural number nearest to `num / den`; a half goes to the even one. -/
def roundHalfEven (num den : Nat) : Nat :=
  let q := num / den
  let r := num % den
  if 2 * r < den then q
  else if den < 2 * r then q + 1
  else if q % 2 = 0 then q else q + 1

/-- The ratio `num / den` in units of the last place at scale `e`, as a ratio. -/
def inUnits (num den e : Nat) : Nat × Nat :=
  if e ≤ 1075 then (num <<< (1075 - e), den) else (num, den <<< (e - 1075))

/-- Does the ratio stay below `2 ^ 53` units at scale `e`? -/
def fitsScale (num den e : Nat) : Bool :=
  (inUnits num den e).1 < (inUnits num den e).2 <<< 53

/-- The least scale at which a positive ratio stays below `2 ^ 53` units. -/
def scaleOf (num den : Nat) : Nat :=
  let e := max 1 (num.log2 + 1022 - den.log2)
  if fitsScale num den e then e else e + 1

/-- The number nearest to `num / den`; a tie goes to the even significand. -/
def ofRatio (negative : Bool) (num den : Nat) : Binary64 :=
  if num = 0 then zero negative
  else
    let e := scaleOf num den
    let units := inUnits num den e
    ofCode negative (((e - 1) <<< 52) + roundHalfEven units.1 units.2)

end Binary64

end TreeLint

import TreeLint.Number.Shortest

/-!
# JSON values

Numbers written without fraction and exponent are integers if they fit a word
of 64 bits, with or without sign; all others are double-precision numbers.
-/

namespace TreeLint

/-- A JSON value; the fields of an object keep their order. -/
inductive Json where
  | null
  | bool (b : Bool)
  | integer (n : Int)
  | float (x : Binary64)
  | string (s : String)
  | array (items : List Json)
  | object (fields : List (String × Json))
deriving Repr, Inhabited

namespace Json

def get? (j : Json) (name : String) : Option Json :=
  match j with
  | .object fields => fields.lookup name
  | _ => none

def string? : Json → Option String
  | .string s => some s
  | _ => none

/-- A name: a string, or an object that has it as its only key, with null. -/
def name? : Json → Option String
  | .string s => some s
  | .object [(s, .null)] => some s
  | _ => none

def bool? : Json → Option Bool
  | .bool b => some b
  | _ => none

def array? : Json → Option (List Json)
  | .array items => some items
  | _ => none

def integer? : Json → Option Int
  | .integer n => some n
  | _ => none

def natBelow? (bound : Nat) (j : Json) : Option Nat :=
  (j.integer?.filter fun n => decide (0 ≤ n) && decide (n < (bound : Int))).map Int.toNat

/-- The value of any number; an integer becomes the nearest double-precision number. -/
def float? : Json → Option Binary64
  | .float x => some x
  | .integer n => some (Binary64.ofDecimal (n < 0) ⟨n.natAbs, 0⟩)
  | _ => none

def strings? (j : Json) : Option (List String) :=
  j.array?.bind fun items => items.mapM string?

/--
The values of a record with the given field names: an object that has them all,
or an array that holds exactly their values in order.
-/
def record? (names : List String) : Json → Option (List Json)
  | .object fields => names.mapM fun name => fields.lookup name
  | .array items => if items.length = names.length then some items else none
  | _ => none

/-- Set a field; a later value replaces an earlier one of the same name. -/
def put (fields : List (String × Json)) (name : String) (value : Json) :
    List (String × Json) :=
  match fields with
  | [] => [(name, value)]
  | (n, v) :: rest => if n = name then (n, value) :: rest else (n, v) :: put rest name value

mutual

/-- Number of levels of arrays and objects, the value itself included. -/
def depth : Json → Nat
  | .array items => 1 + depthOfItems items
  | .object fields => 1 + depthOfFields fields
  | .null => 1
  | .bool _ => 1
  | .integer _ => 1
  | .float _ => 1
  | .string _ => 1

def depthOfItems : List Json → Nat
  | [] => 0
  | j :: rest => max (depth j) (depthOfItems rest)

def depthOfFields : List (String × Json) → Nat
  | [] => 0
  | (_, j) :: rest => max (depth j) (depthOfFields rest)

end

end Json

end TreeLint

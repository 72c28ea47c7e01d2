import TreeLint.Number.Shortest
import TreeLint.Text.Quoted

/-!
# Terminal values

What a leaf of a syntax tree holds.
-/

namespace TreeLint

inductive Value where
  | integer (n : Int64)
  | float (x : Binary64)
  | boolean (b : Bool)
  | string (s : String)
  | nil
deriving DecidableEq, Repr

namespace Value

/-- Equality by variant and value: NaN equals nothing and the two zeros are equal. -/
def same : Value → Value → Bool
  | .float x, .float y => x.same y
  | v, w => v == w

def chars (hidden : Char → Bool) : Value → List Char
  | .integer n => Integer.chars n.toInt
  | .float x => x.chars
  | .boolean true => ['t', 'r', 'u', 'e']
  | .boolean false => ['f', 'a', 'l', 's', 'e']
  | .string s => Text.quoteChars hidden s.toList
  | .nil => ['n', 'i', 'l']

def text (v : Value) : String :=
  String.ofList (v.chars Text.isHidden)

end Value

end TreeLint

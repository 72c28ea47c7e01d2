import TreeLint.Syntax.Value
import TreeLint.Text.Whitespace

/-!
# Values of leaves

The kind of a leaf and its source text decide which value it holds.
-/

namespace TreeLint

namespace Concrete

def occursIn (part : List Char) : List Char → Bool
  | [] => part.isEmpty
  | c :: cs => part.isPrefixOf (c :: cs) || occursIn part cs

def integerSuffixes : List String :=
  ["i128", "u128", "isize", "usize", "i64", "u64", "i32", "u32", "i16", "u16", "i8", "u8"]

/-- The text without the given ending, if it has it. -/
def stripEnding? (ending cs : List Char) : Option (List Char) :=
  if ending.isSuffixOf cs then some (cs.take (cs.length - ending.length)) else none

/-- The text without the first type suffix that it ends with. -/
def stripSuffix (cs : List Char) : List Char :=
  (integerSuffixes.findSome? fun s => stripEnding? s.toList cs).getD cs

def splitRadix : List Char → Nat × List Char
  | '0' :: 'x' :: body => (16, body)
  | '0' :: 'X' :: body => (16, body)
  | '0' :: 'o' :: body => (8, body)
  | '0' :: 'O' :: body => (8, body)
  | '0' :: 'b' :: body => (2, body)
  | '0' :: 'B' :: body => (2, body)
  | body => (10, body)

def dropUnderscores (cs : List Char) : List Char :=
  cs.filter (· != '_')

/-- The value of an integer literal, if it fits a word of 64 bits. -/
def integerLiteral? (cs : List Char) : Option Int64 :=
  let (radix, digits) := splitRadix (stripSuffix (dropUnderscores cs))
  Integer.read? radix digits

def booleanLiteral? (text : String) : Option Bool :=
  if text = "true" || text = "True" then some true
  else if text = "false" || text = "False" then some false
  else none

def classify (kind text : String) : Value :=
  let kind := Text.asciiLower kind
  let isLike (word : String) : Bool := occursIn word.toList kind.toList
  let integer := if isLike "integer" then integerLiteral? text.toList else none
  let float := if isLike "float" then Binary64.read? (dropUnderscores text.toList) else none
  let boolean :=
    if isLike "bool" || kind == "true" || kind == "false" then booleanLiteral? text else none
  match integer, float, boolean with
  | some n, _, _ => .integer n
  | none, some x, _ => .float x
  | none, none, some b => .boolean b
  | none, none, none =>
      if kind == "nil" || kind == "none" || kind == "null" then .nil else .string text

end Concrete

end TreeLint

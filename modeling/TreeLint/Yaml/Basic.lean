/-!
# YAML values

The shape of a YAML document: scalars, sequences and mappings.  Whether a scalar
was quoted decides later how it may be read.
-/

namespace TreeLint

inductive Yaml where
  | scalar (isPlain : Bool) (text : String)
  | sequence (items : List Yaml)
  | mapping (entries : List (Yaml × Yaml))
deriving Repr, Inhabited

namespace Yaml

def absent : Yaml :=
  .scalar true ""

def isNullText (text : String) : Bool :=
  text == "" || text == "~" || String.ofList (text.toList.map Char.toLower) == "null"

def isNull : Yaml → Bool
  | .scalar true text => isNullText text
  | _ => false

mutual

/-- Are two nodes the same but for their quotes? -/
def alike : Yaml → Yaml → Bool
  | .scalar _ s, .scalar _ t => s == t
  | .sequence xs, .sequence ys => alikeItems xs ys
  | .mapping xs, .mapping ys => alikeEntries xs ys
  | _, _ => false

/-- Are the items of two sequences the same but for their quotes? -/
def alikeItems : List Yaml → List Yaml → Bool
  | [], [] => true
  | x :: xs, y :: ys => alike x y && alikeItems xs ys
  | _, _ => false

/-- Are the entries of two mappings the same but for their quotes? -/
def alikeEntries : List (Yaml × Yaml) → List (Yaml × Yaml) → Bool
  | [], [] => true
  | (k, v) :: xs, (l, w) :: ys => alike k l && alike v w && alikeEntries xs ys
  | _, _ => false

end

end Yaml

end TreeLint

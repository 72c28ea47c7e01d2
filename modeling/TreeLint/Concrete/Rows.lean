import TreeLint.Concrete.Basic
import TreeLint.Json.Basic

/-!
# Rows of concrete trees

A concrete tree as a table: one row per node, parents before their children and
siblings in order, each with the number of its children.
-/

namespace TreeLint

namespace Concrete

def rowOfJson? : Json → Option (Head × Nat)
  | .array [kind, flags, field, sb, sr, sc, eb, er, ec, count] => do
      let flags ← flags.natBelow? 16
      let head : Head :=
        { kind := ← kind.string?
          isNamed := flags.testBit 0
          isError := flags.testBit 1
          isMissing := flags.testBit 2
          hasError := flags.testBit 3
          field := field.string?
          startByte := UInt64.ofNat (← sb.natBelow? 0x10000000000000000)
          endByte := UInt64.ofNat (← eb.natBelow? 0x10000000000000000)
          startRow := ← sr.natBelow? 0x10000000000000000
          startColumn := ← sc.natBelow? 0x10000000000000000
          endRow := ← er.natBelow? 0x10000000000000000
          endColumn := ← ec.natBelow? 0x10000000000000000 }
      return (head, ← count.natBelow? 0x10000000000000000)
  | _ => none

/-- Put a node in front of the trees behind it, taking its children from them. -/
def plant (row : Head × Nat) (trees : List Concrete) : Option (List Concrete) :=
  if row.2 ≤ trees.length then some (.node row.1 (trees.take row.2) :: trees.drop row.2)
  else none

def ofRows? : List (Head × Nat) → Option (List Concrete)
  | [] => some []
  | row :: rest => (ofRows? rest).bind (plant row)

def ofJson? (j : Json) : Option Concrete := do
  match ← ofRows? (← (← j.array?).mapM rowOfJson?) with
  | [tree] => some tree
  | _ => none

end Concrete

end TreeLint

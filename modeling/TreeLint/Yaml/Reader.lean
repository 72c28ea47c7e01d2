import TreeLint.Yaml.Basic
import TreeLint.Yaml.Lexer

/-!
# Reading YAML

A reader for one document.  Every reader returns a node and the tokens behind
it.  Each call spends one unit of fuel, and the number of tokens bounds the
number of calls.
-/

namespace TreeLint

namespace Yaml

/-- Put an entry behind the others, the last one first, unless its key is there already. -/
def addEntry (key value : Yaml) (entries : List (Yaml × Yaml)) : Option (List (Yaml × Yaml)) :=
  if entries.any (·.1.alike key) then none else some ((key, value) :: entries)

def comesNext (wanted : List Token) (ts : List Token) : Bool :=
  ts.head?.any wanted.contains

mutual

/-- A node; the dashes of a sequence may stand at the column of the key they belong to. -/
def readNode : Nat → Bool → List Token → Option (Yaml × List Token)
  | 0, _, _ => none
  | fuel + 1, mayDash, ts =>
      match ts with
      | .scalar isPlain text :: ts => some (.scalar isPlain text, ts)
      | .openBracket :: ts => flowItems fuel [] ts
      | .openBrace :: ts => flowEntries fuel [] ts
      | .blockSequence :: ts => blockItems fuel [] ts
      | .blockMapping :: ts => blockEntries fuel [] ts
      | .dash :: _ => if mayDash then dashItems fuel [] ts else none
      | _ => none

def readNodeBefore : Nat → Bool → List Token → List Token → Option (Yaml × List Token)
  | 0, _, _, _ => none
  | fuel + 1, mayDash, ends, ts =>
      if comesNext ends ts then some (.absent, ts) else readNode fuel mayDash ts

def readValueBefore : Nat → Bool → List Token → List Token → Option (Yaml × List Token)
  | 0, _, _, _ => none
  | fuel + 1, mayDash, ends, ts =>
      match ts with
      | .value :: ts => readNodeBefore fuel mayDash ends ts
      | ts => some (.absent, ts)

/-- The items of a block sequence; `acc` holds the ones before, the last one first. -/
def blockItems : Nat → List Yaml → List Token → Option (Yaml × List Token)
  | 0, _, _ => none
  | fuel + 1, acc, ts =>
      match ts with
      | .blockEnd :: ts => some (.sequence acc.reverse, ts)
      | .dash :: ts => do
          let (item, ts) ← readNodeBefore fuel false [.dash, .blockEnd] ts
          blockItems fuel (item :: acc) ts
      | _ => none

/-- The items of a sequence at the column of its key; it ends where no dash follows. -/
def dashItems : Nat → List Yaml → List Token → Option (Yaml × List Token)
  | 0, _, _ => none
  | fuel + 1, acc, ts =>
      match ts with
      | .dash :: ts => do
          let (item, ts) ← readNodeBefore fuel false [.dash, .key, .value, .blockEnd] ts
          dashItems fuel (item :: acc) ts
      | ts => some (.sequence acc.reverse, ts)

/-- The entries of a block mapping; `acc` holds the ones before, the last one first. -/
def blockEntries : Nat → List (Yaml × Yaml) → List Token → Option (Yaml × List Token)
  | 0, _, _ => none
  | fuel + 1, acc, ts =>
      let ends := [Token.key, .value, .blockEnd]
      match ts with
      | .blockEnd :: ts => some (.mapping acc.reverse, ts)
      | .key :: ts => do
          let (key, ts) ← readNodeBefore fuel true ends ts
          let (value, ts) ← readValueBefore fuel true ends ts
          blockEntries fuel (← addEntry key value acc) ts
      | .value :: _ => do
          let (value, ts) ← readValueBefore fuel true ends ts
          blockEntries fuel (← addEntry .absent value acc) ts
      | _ => none

/-- The items of a flow sequence; `acc` holds the ones before, the last one first. -/
def flowItems : Nat → List Yaml → List Token → Option (Yaml × List Token)
  | 0, _, _ => none
  | fuel + 1, acc, ts => do
      if comesNext [.closeBracket] ts then return (.sequence acc.reverse, ts.tail)
      let (item, ts) ← flowItem fuel ts
      match ts with
      | .comma :: ts => flowItems fuel (item :: acc) ts
      | .closeBracket :: ts => return (.sequence (item :: acc).reverse, ts)
      | _ => none

/-- An item of a flow sequence; a key there makes a mapping of one entry. -/
def flowItem : Nat → List Token → Option (Yaml × List Token)
  | 0, _ => none
  | fuel + 1, ts =>
      let ends := [Token.comma, .closeBracket]
      match ts with
      | .key :: ts => do
          let (key, ts) ← readNode fuel false ts
          let (value, ts) ← readValueBefore fuel false ends ts
          return (.mapping [(key, value)], ts)
      | ts => readNode fuel false ts

/-- The entries of a flow mapping; `acc` holds the ones before, the last one first. -/
def flowEntries : Nat → List (Yaml × Yaml) → List Token → Option (Yaml × List Token)
  | 0, _, _ => none
  | fuel + 1, acc, ts => do
      if comesNext [.closeBrace] ts then return (.mapping acc.reverse, ts.tail)
      let ((key, value), ts) ← flowEntry fuel ts
      let acc ← addEntry key value acc
      match ts with
      | .comma :: ts => flowEntries fuel acc ts
      | .closeBrace :: ts => return (.mapping acc.reverse, ts)
      | _ => none

/-- An entry of a flow mapping; a node alone is a key. -/
def flowEntry : Nat → List Token → Option ((Yaml × Yaml) × List Token)
  | 0, _ => none
  | fuel + 1, ts =>
      let ends := [Token.comma, .closeBrace]
      match ts with
      | .key :: ts => do
          let (key, ts) ← readNodeBefore fuel false (.value :: ends) ts
          let (value, ts) ← readValueBefore fuel false ends ts
          return ((key, value), ts)
      | .value :: _ => do
          let (value, ts) ← readValueBefore fuel false ends ts
          return ((.absent, value), ts)
      | ts => do
          let (key, ts) ← readNode fuel false ts
          return ((key, .absent), ts)

end

/--
Does another document begin behind one?  Without `---` it does so only where
`isBare` allows it; what cannot begin one is ignored.
-/
def beginsDocument (isBare : Bool) (ts : List Token) : Bool :=
  match ts.dropWhile (· == .documentEnd) with
  | .documentStart :: t :: _ => t.isBoundary || t.startsNode
  | t :: _ => isBare && t.startsNode
  | [] => false

def isLast : List Token → Bool
  | [] => false
  | .documentEnd :: ts => !beginsDocument true ts
  | ts => !beginsDocument false ts

def readRoot (ts : List Token) : Option (Yaml × List Token) :=
  let fuel := 4 * ts.length + 10
  match ts.dropWhile (· == .documentEnd) with
  | .documentStart :: ts => readNodeBefore fuel false [.documentStart, .documentEnd, .textEnd] ts
  | .textEnd :: ts => some (.absent, .textEnd :: ts)
  | ts => readNode fuel false ts

def read? (text : String) : Option Yaml :=
  match readRoot (tokens text) with
  | some (node, ts) => if isLast ts then some node else none
  | none => none

end Yaml

end TreeLint

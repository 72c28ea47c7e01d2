import TreeLint.Yaml.Cursor

/-!
# Block scalars

Scalars whose lines stand below their sign: `|` keeps the line ends and `>`
folds them.
-/

namespace TreeLint

namespace Yaml

/-- What becomes of the line ends at the end of a block scalar. -/
inductive Chomping where
  | strip
  | clip
  | keep
deriving DecidableEq, Repr

/-- What the first line of a block scalar says. -/
structure BlockHeader where
  chomping : Chomping
  /-- The indentation of the lines, counted from the block around them. -/
  width : Option Nat

def chomping? : Char → Option Chomping
  | '-' => some .strip
  | '+' => some .keep
  | _ => none

/-- The width of a sign, which is never zero. -/
def width? (c : Char) : Option Nat :=
  if '1' ≤ c && c ≤ '9' then some (c.toNat - 48) else none

/-- The header behind `|` or `>` and its number of characters: at most one sign of each kind. -/
def readHeader (cs : List Char) : BlockHeader × Nat :=
  let first := cs.head?
  let second := cs.tail.head?
  match first.bind chomping?, first.bind width? with
  | some chomping, _ =>
      match second.bind width? with
      | some w => (⟨chomping, some w⟩, 2)
      | none => (⟨chomping, none⟩, 1)
  | none, some w =>
      match second.bind chomping? with
      | some chomping => (⟨chomping, some w⟩, 2)
      | none => (⟨.clip, some w⟩, 1)
  | none, none => (⟨.clip, none⟩, 0)

/-- Empty lines: their number, the greatest column on them or behind them, and what is behind. -/
structure EmptyLines where
  count : Nat
  widest : Nat
  cursor : Cursor

/-- Skip blanks up to a column, if one is given, and lines that hold nothing else. -/
def readEmptyLines (limit : Option Nat) (count widest : Nat) (place : Place) :
    List Char → EmptyLines
  | [] => ⟨count, max widest place.column, ⟨[], place⟩⟩
  | c :: cs =>
      if c = '\n' then
        readEmptyLines limit (count + 1) (max widest place.column) place.nextLine cs
      else if c = ' ' && limit.all (place.column < ·) then
        readEmptyLines limit count widest (place.move 1) cs
      else ⟨count, max widest place.column, ⟨c :: cs, place⟩⟩

def Cursor.emptyLines (c : Cursor) (limit : Option Nat) : EmptyLines :=
  readEmptyLines limit 0 0 c.place c.rest

def newlines (n : Nat) : List Char :=
  List.replicate n '\n'

def joinLines (isFolded : Bool) (empty : Nat) : List Char :=
  if !isFolded then newlines (empty + 1)
  else if empty = 0 then [' ']
  else newlines empty

/-- The lines of a block scalar: their text, whether the last one ends, the empty ones behind. -/
structure BlockLines where
  text : List Char
  isEnded : Bool
  empty : Nat
  cursor : Cursor

/--
The lines at a column.  `before` is what joins a line to the one before it, if
there is one: whether that line begins with a blank.  Lines that begin with a
blank are never folded.
-/
def readLines (isFolded : Bool) (column : Nat) :
    Nat → Option Bool → EmptyLines → BlockLines
  | 0, _, e => ⟨[], true, e.count, e.cursor⟩
  | fuel + 1, before, e =>
      let c := e.cursor
      if c.rest.isEmpty || c.column != column || (column == 0 && isMark '.' c.rest) then
        ⟨[], before.isSome, e.count, c⟩
      else
        let line := c.rest.takeWhile (· != '\n')
        let isIndented := line.head?.any isSpace
        let joint :=
          match before with
          | none => newlines e.count
          | some wasIndented => joinLines (isFolded && !wasIndented && !isIndented) e.count
        let behind := c.skip line.length
        match behind.rest with
        | [] => ⟨joint ++ line, false, 0, behind⟩
        | _ :: rest =>
            let next := Cursor.emptyLines ⟨rest, behind.place.nextLine⟩ (some column)
            let more := readLines isFolded column fuel (some isIndented) next
            { more with text := joint ++ line ++ more.text }

def blockText (chomping : Chomping) (column : Nat) (lines : BlockLines) : List Char :=
  let last := if lines.isEnded then ['\n'] else []
  let isCut := lines.cursor.rest.isEmpty && max column 1 ≤ lines.cursor.column
  let extra := if isCut then ['\n'] else []
  match chomping with
  | .strip => lines.text
  | .clip => lines.text ++ last ++ extra
  | .keep => lines.text ++ last ++ extra ++ newlines lines.empty

def emptyBlockText (chomping : Chomping) (empty : Nat) : List Char :=
  match chomping with
  | .strip => []
  | .clip => newlines 1
  | .keep => newlines (max empty 1)

/--
A block scalar whose sign comes next, inside a block at the column `indent`; the
fuel has to exceed the number of lines.
-/
def readBlock (indent : Int) (fuel : Nat) (c : Cursor) : Option (List Char × Cursor) :=
  let isFolded := c.rest.head? == some '>'
  let (header, size) := readHeader (c.rest.drop 1)
  match (c.skip (size + 1)).tail with
  | none => none
  | some tail =>
      match tail.cursor.rest with
      | [] => some ([], tail.cursor)
      | sign :: rest =>
          if sign != '\n' || rest.head? == some '\t' then none
          else
            let body : Cursor := ⟨rest, tail.cursor.place.nextLine⟩
            let given := header.width.map fun w => indent.toNat + w
            let empty := body.emptyLines given
            let column := given.getD (max empty.widest (indent + 1).toNat)
            if empty.cursor.rest.isEmpty then
              some (emptyBlockText header.chomping empty.count, empty.cursor)
            else if empty.cursor.column < column && indent < empty.cursor.column then none
            else
              let lines := readLines isFolded column fuel none empty
              some (blockText header.chomping column lines, lines.cursor)

end Yaml

end TreeLint

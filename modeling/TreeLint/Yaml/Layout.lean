import TreeLint.Yaml.Cursor
import TreeLint.Yaml.Token

/-!
# The layout of a YAML text

How far a text has been read: the blocks and brackets that are open, and the
tokens so far.  A key has no sign in front of it, so the place where one may have
begun is kept until its colon comes or the line ends.
-/

namespace TreeLint

namespace Yaml

/-- A column of indentation; one that belongs to no block only moves its text to the right. -/
structure Level where
  column : Nat
  isBlock : Bool
deriving DecidableEq, Repr

structure PendingKey where
  place : Place
  /-- Number of tokens in front of it. -/
  token : Nat
  /-- Nothing but a key may stand there. -/
  isRequired : Bool
deriving DecidableEq, Repr

/-- How far a text has been read. -/
structure Layout where
  /-- Number of characters of the whole text. -/
  size : Nat
  cursor : Cursor
  /-- Nothing but blanks is before the cursor on its line. -/
  isLineStart : Bool
  /-- The innermost level comes first. -/
  levels : List Level
  /-- The pending key of the innermost brackets, or of the block if none are open. -/
  pending : Option PendingKey
  /-- The pending keys around the open brackets, the innermost first. -/
  outer : List (Option PendingKey)
  /-- A key may begin at the next token. -/
  allowsKey : Bool
  /-- The offset at which a colon inside brackets needs no gap behind it. -/
  adjacent : Nat
  /-- For each open `[`, whether a pair without braces is open in it. -/
  pairs : List Bool
  /-- A brace or a question mark came since the last pair without braces ended. -/
  isBraced : Bool
  /-- The tokens so far, the last one first. -/
  tokens : List Token
  /-- Number of tokens so far. -/
  count : Nat

namespace Layout

def start (text : List Char) : Layout :=
  { size := text.length
    cursor := ⟨text, .start⟩
    isLineStart := true
    levels := []
    pending := none
    outer := []
    allowsKey := true
    adjacent := 0
    pairs := []
    isBraced := false
    tokens := []
    count := 0 }

def inFlow (s : Layout) : Bool :=
  !s.outer.isEmpty

def indent (s : Layout) : Int :=
  match s.levels with
  | [] => -1
  | level :: _ => level.column

def isInBlock (s : Layout) : Bool :=
  s.levels.head?.any Level.isBlock

/-! ## Tokens -/

def push (s : Layout) (t : Token) : Layout :=
  { s with tokens := t :: s.tokens, count := s.count + 1 }

def insert (s : Layout) (number : Nat) (t : Token) : Layout :=
  let n := s.count - number
  { s with tokens := s.tokens.take n ++ t :: s.tokens.drop n, count := s.count + 1 }

def skip (s : Layout) (n : Nat) : Layout :=
  { s with cursor := s.cursor.skip n, isLineStart := false }

/-- Move over the blanks and the comment behind a token. -/
def skipTail (s : Layout) : Option Layout :=
  s.cursor.tail.map fun tail => { s with cursor := tail.cursor }

/-- Move to the next token; a key may begin on each line of a block. -/
def skipGap (s : Layout) : Option Layout :=
  (s.cursor.gap ⟨true, true, s.indent⟩ s.isLineStart).map fun gap =>
    { s with
      cursor := gap.cursor
      isLineStart := gap.isLineStart
      allowsKey := s.allowsKey || (0 < gap.breaks && !s.inFlow) }

/-! ## Indentation -/

def closeLevels (s : Layout) (column : Int) : Layout :=
  if s.inFlow then s
  else
    let isInside (level : Level) : Bool := column < level.column
    let blocks := (s.levels.takeWhile isInside).countP Level.isBlock
    { s with
      levels := s.levels.dropWhile isInside
      tokens := List.replicate blocks .blockEnd ++ s.tokens
      count := s.count + blocks }

def leaveShifts (s : Layout) : Layout :=
  { s with levels := s.levels.dropWhile (!·.isBlock) }

/-- Move the text behind a sign of a block one column to the right. -/
def shift (s : Layout) : Layout :=
  match s.levels with
  | level :: _ =>
      if level.isBlock && !s.inFlow then
        { s with levels := ⟨level.column + 1, false⟩ :: s.levels }
      else s
  | [] => s

/-- The levels without a last one that belongs to no block and is not right of a column. -/
def levelsAt (s : Layout) (column : Nat) : List Level :=
  match s.levels with
  | level :: rest => if !level.isBlock && level.column ≤ column then rest else s.levels
  | [] => []

/-- Open a block at a column unless one is open there; its token stands at `number`, or last. -/
def openBlock (s : Layout) (column : Nat) (number : Option Nat) (t : Token) : Layout :=
  if s.inFlow then s
  else
    let s := { s with levels := s.levelsAt column }
    if s.indent < (column : Int) then
      let s := { s with levels := ⟨column, true⟩ :: s.levels }
      match number with
      | some n => s.insert n t
      | none => s.push t
    else s

/-! ## Pending keys -/

def keyLimit : Nat :=
  1024

/-- A key may begin here; at the column of a block it has to. -/
def markKey (s : Layout) : Layout :=
  if s.allowsKey then
    let isRequired := !s.inFlow && s.isInBlock && s.indent == s.cursor.column
    { s with pending := some ⟨s.cursor.place, s.count, isRequired⟩ }
  else s

/-- Give the pending key up; nothing if it is required. -/
def dropKey (s : Layout) : Option Layout :=
  if s.pending.any PendingKey.isRequired then none else some { s with pending := none }

/-- Outside of brackets, give up a pending key of an earlier line or of too many characters. -/
def dropStaleKey (s : Layout) : Option Layout :=
  let place := s.cursor.place
  let isStale (key : PendingKey) : Bool :=
    key.place.line < place.line || key.place.offset + keyLimit < place.offset
  if !s.inFlow && s.pending.any isStale then s.dropKey else some s

/-- The first tokens, up to the first pending key: no other token can come among them. -/
def settled (s : Layout) : List Token :=
  let limit :=
    (s.pending :: s.outer).foldl (fun n key => (key.map (min n ·.token)).getD n) s.count
  s.tokens.reverse.take limit

/-! ## Pairs -/

/-- End the pair without braces that is open in the innermost `[`. -/
def endPair (s : Layout) : Layout :=
  match s.pairs with
  | true :: rest => { s.push .closeBrace with pairs := false :: rest, isBraced := false }
  | _ => s

end Layout

end Yaml

end TreeLint

/-!
# Places in a YAML text

The text that is left and where it begins.  Line ends are single newlines.
-/

namespace TreeLint

namespace Yaml

/-- Make every line end a single newline. -/
def unifyBreaks : List Char → List Char
  | [] => []
  | '\r' :: '\n' :: cs => '\n' :: unifyBreaks cs
  | '\r' :: cs => '\n' :: unifyBreaks cs
  | c :: cs => c :: unifyBreaks cs

def isSpace (c : Char) : Bool :=
  c == ' ' || c == '\t'

def isGapChar (c : Char) : Bool :=
  isSpace c || c == '\n'

def startsWithGap (cs : List Char) : Bool :=
  cs.head?.all isGapChar

def startsWithBreak (cs : List Char) : Bool :=
  cs.head?.all (· == '\n')

def isFlowSign (c : Char) : Bool :=
  c == ',' || c == '[' || c == ']' || c == '\x7b' || c == '\x7d'

def startsWithFlowSign (cs : List Char) : Bool :=
  cs.head?.any isFlowSign

/-- Three equal characters and a gap: `---` begins a document and `...` ends one. -/
def isMark (sign : Char) (cs : List Char) : Bool :=
  cs.take 3 == [sign, sign, sign] && startsWithGap (cs.drop 3)

def startsWithMark (cs : List Char) : Bool :=
  isMark '-' cs || isMark '.' cs

/-- A place in a text: its line, its column in the line, and the number of characters before it. -/
structure Place where
  line : Nat
  column : Nat
  offset : Nat
deriving DecidableEq, Repr

def Place.start : Place :=
  ⟨0, 0, 0⟩

def Place.move (p : Place) (n : Nat) : Place :=
  ⟨p.line, p.column + n, p.offset + n⟩

def Place.nextLine (p : Place) : Place :=
  ⟨p.line + 1, 0, p.offset + 1⟩

/-- The text that is left, and the place of its first character. -/
structure Cursor where
  rest : List Char
  place : Place
deriving Repr

def Cursor.skip (c : Cursor) (n : Nat) : Cursor :=
  ⟨c.rest.drop n, c.place.move n⟩

def Cursor.column (c : Cursor) : Nat :=
  c.place.column

/-! ## Gaps -/

structure GapRule where
  /-- Comments belong to the gap. -/
  hasComments : Bool
  /-- A line that has a tab in its indentation may be there if it is empty otherwise. -/
  allowsTabs : Bool
  /-- Number of columns that are indentation. -/
  indent : Int

inductive GapState where
  | blanks
  /-- Behind a tab in the indentation. -/
  | tabbed
  | comment

/-- A gap: what is behind it, its line ends, and whether nothing but it is before on the line. -/
structure Gap where
  cursor : Cursor
  breaks : Nat
  isLineStart : Bool

/-- Read the rest of a gap; nothing if it breaks its rule. -/
def readGap (rule : GapRule) (state : GapState) (breaks : Nat) (isLineStart : Bool)
    (place : Place) : List Char → Option Gap
  | [] => some ⟨⟨[], place⟩, breaks, isLineStart⟩
  | c :: cs =>
      let goOn (state : GapState) := readGap rule state breaks isLineStart (place.move 1) cs
      if c = '\n' then readGap rule .blanks (breaks + 1) true place.nextLine cs
      else
        match state with
        | .comment => goOn .comment
        | .tabbed => if isSpace c then goOn .tabbed else if c = '#' then goOn .comment else none
        | .blanks =>
            if c = '\t' && isLineStart && place.column < rule.indent then
              if rule.allowsTabs then goOn .tabbed else none
            else if isSpace c then goOn .blanks
            else if c = '#' && rule.hasComments then goOn .comment
            else some ⟨⟨c :: cs, place⟩, breaks, isLineStart⟩

def Cursor.gap (c : Cursor) (rule : GapRule) (isLineStart : Bool) : Option Gap :=
  readGap rule .blanks 0 isLineStart c.place c.rest

/-- What line ends inside a flowing text stand for: one is a blank, each further one a newline. -/
def foldedBreaks (breaks : Nat) : List Char :=
  if breaks = 1 then [' '] else List.replicate (breaks - 1) '\n'

/-- The blanks and the comment behind a token: what is behind them, and which blanks there are. -/
structure Tail where
  cursor : Cursor
  hasBlank : Bool
  hasTab : Bool

/-- Read blanks up to the next token or line end; a comment has to stand behind a blank. -/
def readTail (hasBlank hasTab : Bool) (place : Place) : List Char → Option Tail
  | [] => some ⟨⟨[], place⟩, hasBlank, hasTab⟩
  | c :: cs =>
      if c = ' ' then readTail true hasTab (place.move 1) cs
      else if c = '\t' then readTail hasBlank true (place.move 1) cs
      else if c = '#' then
        if hasBlank || hasTab then
          let comment := (c :: cs).takeWhile (· != '\n')
          some ⟨Cursor.skip ⟨c :: cs, place⟩ comment.length, hasBlank, hasTab⟩
        else none
      else some ⟨⟨c :: cs, place⟩, hasBlank, hasTab⟩

def Cursor.tail (c : Cursor) : Option Tail :=
  readTail false false c.place c.rest

end Yaml

end TreeLint

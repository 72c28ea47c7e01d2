import TreeLint.Text.Offset
import TreeLint.Text.Whitespace

/-!
# Source spans

Where a node stands in its source: a range of UTF-8 bytes, and the zero-based
lines and columns of its two ends.
-/

namespace TreeLint

/-- A zero-based line and column. -/
structure Position where
  line : UInt32
  column : UInt32
deriving DecidableEq, Repr, Inhabited

namespace Position

/-- A word one larger, at most the largest word. -/
def increment (n : UInt32) : Nat :=
  min (n.toNat + 1) 0xFFFFFFFF

/-- Line and column counted from one; the largest word stays as it is. -/
def oneBased (p : Position) : Nat × Nat :=
  (increment p.line, increment p.column)

/-- Position of a row and column of any size; what does not fit a word becomes the largest. -/
def ofPoint (row column : Nat) : Position :=
  ⟨UInt32.ofNat (min row 0xFFFFFFFF), UInt32.ofNat (min column 0xFFFFFFFF)⟩

def isAtMost (p q : Position) : Bool :=
  p.line < q.line || (p.line == q.line && p.column ≤ q.column)

end Position

/-- A byte range with the positions of its ends. -/
structure Span where
  startByte : UInt64
  endByte : UInt64
  start : Position
  stop : Position
deriving DecidableEq, Repr, Inhabited

namespace Span

def text? (span : Span) (source : List Char) : Option (List Char) :=
  Text.slice? source span.startByte.toNat span.endByte.toNat

/-- The source text of the span; empty when its byte range is not valid there. -/
def text (span : Span) (source : String) : String :=
  String.ofList ((span.text? source.toList).getD [])

def lastLine (cs : List Char) : List Char :=
  (cs.reverse.takeWhile (· != '\n')).reverse

/--
The source line on which the span begins, without its line end.  A start that
is not a valid offset counts as the start of the source.
-/
def firstLine (span : Span) (source : String) : String :=
  let cs := source.toList
  let start := span.startByte.toNat
  let (before, after) :=
    match Text.takeBytes? cs start, Text.dropBytes? cs start with
    | some before, some after => (before, after)
    | _, _ => ([], cs)
  let line := lastLine before ++ after.takeWhile (· != '\n')
  String.ofList (Text.dropEndWhile (· == '\r') line)

end Span

end TreeLint

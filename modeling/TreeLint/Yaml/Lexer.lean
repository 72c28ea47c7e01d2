import TreeLint.Yaml.BlockScalar
import TreeLint.Yaml.Layout
import TreeLint.Yaml.Scalar

/-!
# The tokens of a YAML text

Each step reads one sign or scalar.  A text that cannot be read on has no more
tokens, so the tokens of a well-formed text are those that end in `textEnd`.
-/

namespace TreeLint

namespace Yaml

namespace Layout

def readEnd (s : Layout) : Option Layout :=
  if (s.pending :: s.outer).any (·.any PendingKey.isRequired) then none
  else
    let s := s.closeLevels (-1)
    some { s.push .textEnd with pending := none, outer := s.outer.map fun _ => none }

def readMark (s : Layout) (t : Token) : Option Layout := do
  let s ← (s.closeLevels (-1)).dropKey
  return { (s.skip 3).push t with allowsKey := false }

def readEndMark (s : Layout) : Option Layout := do
  let s ← s.readMark .documentEnd
  let s ← s.skipTail
  if startsWithBreak s.cursor.rest then return s else none

def flowLimit : Nat :=
  255

def readOpening (s : Layout) (t : Token) : Option Layout := do
  if flowLimit ≤ s.outer.length then none
  let s := s.markKey.shift
  let s := { s.skip 1 with outer := s.pending :: s.outer, pending := none, allowsKey := true }
  let s :=
    if t = .openBrace then { s with isBraced := true } else { s with pairs := false :: s.pairs }
  let s ← s.skipTail
  return s.push t

/-- `]` or a closing brace; behind it a colon needs no gap. -/
def readClosing (s : Layout) (t : Token) : Option Layout := do
  let s ← s.dropKey
  match s.outer with
  | [] => none
  | key :: outer =>
      let s := { s with pending := key, outer := outer, allowsKey := false }
      let s := if t = .closeBracket then { s.endPair with pairs := s.pairs.tail } else s
      let s ← (s.skip 1).skipTail
      let s := if s.inFlow then { s with adjacent := s.cursor.place.offset } else s
      return s.push t

def readComma (s : Layout) : Option Layout := do
  let s ← s.dropKey
  let s ← (s.endPair.skip 1).skipTail
  return { s.push .comma with allowsKey := true }

/-- The dash of an entry; a tab may not indent another entry behind it. -/
def readDash (s : Layout) : Option Layout := do
  if s.inFlow || !s.allowsKey then none
  let column := s.cursor.column
  let s := (s.skip 1).openBlock column none .blockSequence
  let tail ← s.cursor.tail
  let rest := tail.cursor.rest
  if tail.hasTab && rest.head? == some '-' && startsWithGap (rest.drop 1) then none
  let s := { s with cursor := tail.cursor }
  let s := if rest.head? == some '\n' || startsWithFlowSign rest then s.shift else s
  let s ← s.dropKey
  return { s.push .dash with allowsKey := true }

def meetsTab (inComment : Bool) : List Char → Bool
  | [] => false
  | c :: cs =>
      if c = '\n' then meetsTab false cs
      else if inComment || c = '#' then meetsTab true cs
      else if c = ' ' then meetsTab false cs
      else c == '\t'

/-- The question mark of a key; a gap without tabs follows it. -/
def readQuestion (s : Layout) : Option Layout := do
  if !s.inFlow && !s.allowsKey then none
  let s :=
    if s.inFlow then { s with isBraced := true }
    else s.openBlock s.cursor.column none .blockMapping
  let s ← s.dropKey
  let s := s.skip 1
  if s.cursor.rest.isEmpty || meetsTab false s.cursor.rest then none
  return { s.push .key with allowsKey := !s.inFlow }

def isWordChar (c : Char) : Bool :=
  c.isAlphanum || c == '_' || c == '-'

/-- The blanks behind a colon; tabs alone may not stand in front of a word. -/
def skipColonTail (s : Layout) : Option Layout :=
  if s.cursor.rest.head? == some '\t' then do
    let tail ← s.cursor.tail
    if !tail.hasBlank && tail.cursor.rest.head?.any isWordChar then none
    else return { s with cursor := tail.cursor }
  else some s

/-- A colon: it makes the pending key one, or stands behind a key with a question mark. -/
def readColon (s : Layout) : Option Layout := do
  let place := s.cursor.place
  let isPair := !s.pairs.isEmpty && !s.isBraced
  let s := if isPair then { s with pairs := true :: s.pairs.tail } else s
  let s ← (s.skip 1).skipColonTail
  match s.pending with
  | some key =>
      if isPair && key.place.line < place.line then none
      let s := s.insert key.token .key
      let s := if isPair then s.insert key.token .openBrace else s
      let s := (s.openBlock key.place.column (some key.token) .blockMapping).shift
      return { s.push .value with pending := none, allowsKey := false }
  | none =>
      let s := if isPair then s.push .openBrace else s
      if s.inFlow then return { s.push .value with allowsKey := false }
      else if !s.allowsKey then none
      else
        let s := (s.openBlock place.column none .blockMapping).shift
        return { s.push .value with allowsKey := true }

/-- A colon inside brackets with no gap behind it; a plain key may not touch an opening sign. -/
def readTightColon (s : Layout) : Option Layout :=
  let next := (s.cursor.rest.drop 1).head?
  if s.cursor.place.offset != s.adjacent && (next == some '[' || next == some '\x7b') then none
  else s.readColon

def readPlainToken (s : Layout) : Option Layout := do
  let s := { s.markKey with allowsKey := false }.leaveShifts
  let r ← readPlain s.inFlow s.indent (s.size + 1) s.isLineStart s.cursor
  return { s.push (.scalar true (String.ofList r.text)) with
    cursor := r.cursor, isLineStart := r.isLineStart, allowsKey := r.isLineStart }

def mayFollowQuoted (inFlow : Bool) (line : Nat) (c : Cursor) : Bool :=
  match c.rest with
  | [] => true
  | x :: _ =>
      x == '\n' || (inFlow && (x == ',' || x == ']' || x == '\x7d')) ||
        (x == ':' && (inFlow || c.place.line == line))

/-- A quoted scalar; behind it a colon inside brackets needs no gap. -/
def readQuotedToken (s : Layout) (quote : Char) : Option Layout := do
  let line := s.cursor.place.line
  let s := { s.markKey with allowsKey := false }
  let (text, behind) ← readQuoted quote s.inFlow s.indent (s.size + 1) (s.cursor.skip 1)
  let s ← { s with cursor := behind, isLineStart := false }.skipTail
  if !mayFollowQuoted s.inFlow line s.cursor then none
  let s ← s.skipGap
  return { s.push (.scalar false (String.ofList text)) with adjacent := s.cursor.place.offset }

def readBlockToken (s : Layout) : Option Layout := do
  let s := { s.markKey with allowsKey := true }.leaveShifts
  let (text, behind) ← readBlock s.indent (s.size + 1) s.cursor
  return { s.push (.scalar false (String.ofList text)) with cursor := behind, isLineStart := true }

/-- The sign or scalar that begins with a character; `rest` is the text behind it. -/
def readSign (s : Layout) (c : Char) (rest : List Char) : Option Layout :=
  if c = '[' then s.readOpening .openBracket
  else if c = '\x7b' then s.readOpening .openBrace
  else if c = ']' then s.readClosing .closeBracket
  else if c = '\x7d' then s.readClosing .closeBrace
  else if c = ',' then s.readComma
  else if c = '-' && startsWithGap rest then s.readDash
  else if c = '?' && startsWithGap rest then s.readQuestion
  else if c = ':' && startsWithGap rest then s.readColon
  else if c = ':' && s.inFlow &&
      (startsWithFlowSign rest || s.cursor.place.offset == s.adjacent) then
    s.readTightColon
  else if (c = '|' || c = '>') && !s.inFlow then s.readBlockToken
  else if c = '\'' || c = '"' then s.readQuotedToken c
  else if "&*!%@`".toList.contains c then none
  else s.readPlainToken

/-- Inside brackets, a sign that may stand left of the indentation. -/
def mayOutdent (s : Layout) (c : Char) : Bool :=
  s.inFlow && (c == ']' || c == '\x7d' || c == ',')

def step (s : Layout) : Option Layout := do
  let s ← s.skipGap
  let s ← s.dropStaleKey
  let s := s.closeLevels s.cursor.column
  match s.cursor.rest with
  | [] => s.readEnd
  | c :: rest =>
      if s.cursor.column == 0 && isMark '-' s.cursor.rest then s.readMark .documentStart
      else if s.cursor.column == 0 && isMark '.' s.cursor.rest then s.readEndMark
      else if s.cursor.column < s.indent && !s.mayOutdent c then none
      else s.readSign c rest

def settledHere (s : Layout) : List Token :=
  (s.dropStaleKey.getD s).settled

def readTokens : Nat → Layout → List Token
  | 0, s => s.settledHere
  | fuel + 1, s =>
      if s.tokens.head? == some .textEnd then s.settled
      else
        match s.step with
        | some s => readTokens fuel s
        | none => s.settledHere

end Layout

/-- The text without a byte order mark in front. -/
def dropByteOrderMark : List Char → List Char
  | c :: cs => if c.toNat = 0xFEFF then cs else c :: cs
  | [] => []

/-- The text that is read: up to a NUL and without byte order marks, of which there may be two. -/
def readable (text : String) : List Char :=
  let cs := dropByteOrderMark (dropByteOrderMark text.toList)
  unifyBreaks (cs.takeWhile (·.toNat != 0))

def tokens (text : String) : List Token :=
  let s := Layout.start (readable text)
  s.readTokens (s.size + 2)

end Yaml

end TreeLint

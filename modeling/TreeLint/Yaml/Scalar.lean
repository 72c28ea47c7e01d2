import TreeLint.Number.Integer
import TreeLint.Yaml.Cursor

/-!
# Plain and quoted scalars

Scalars that may flow over several lines.  A reader returns the text of the
scalar and the place behind it, or nothing if the scalar is malformed.  `indent`
is the column of the block around the scalar; the fuel of a reader has to exceed
the number of characters.
-/

namespace TreeLint

namespace Yaml

/-! ## Plain scalars -/

/-- Does a plain scalar end before this text, which does not begin with a gap? -/
def endsPlain (inFlow : Bool) : List Char → Bool
  | [] => true
  | c :: rest =>
      (c == ':' && (startsWithGap rest || (inFlow && startsWithFlowSign rest))) ||
        (inFlow && isFlowSign c)

def plainWord (inFlow : Bool) : List Char → List Char
  | [] => []
  | c :: cs =>
      if isGapChar c || endsPlain inFlow (c :: cs) then [] else c :: plainWord inFlow cs

/-- A plain scalar, the gap behind it included, and whether that gap crosses lines. -/
structure PlainText where
  text : List Char
  cursor : Cursor
  isLineStart : Bool

def readPlainWords (inFlow : Bool) (indent : Int) : Nat → Bool → Cursor → Option PlainText
  | 0, _, _ => none
  | fuel + 1, isLineStart, c =>
      if (isLineStart && startsWithMark c.rest) || c.rest.head? == some '#' then
        some ⟨[], c, isLineStart⟩
      else if inFlow && c.rest.head? == some '-' && startsWithFlowSign (c.rest.drop 1) then none
      else
        let word := plainWord inFlow c.rest
        let behind := c.skip word.length
        if word.isEmpty then some ⟨[], c, isLineStart⟩
        else if !behind.rest.head?.any isGapChar then some ⟨word, behind, false⟩
        else
          match behind.gap ⟨false, true, indent + 1⟩ false with
          | none => none
          | some gap =>
              if !inFlow && gap.cursor.column < indent + 1 then
                some ⟨word, gap.cursor, gap.isLineStart⟩
              else
                (readPlainWords inFlow indent fuel gap.isLineStart gap.cursor).map fun more =>
                  let joint :=
                    if gap.breaks = 0 then behind.rest.takeWhile isSpace
                    else foldedBreaks gap.breaks
                  if more.text.isEmpty then { more with text := word }
                  else { more with text := word ++ joint ++ more.text }

/-- A plain scalar; it has at least one character. -/
def readPlain (inFlow : Bool) (indent : Int) (fuel : Nat) (isLineStart : Bool) (c : Cursor) :
    Option PlainText :=
  if inFlow && c.column < indent + 1 then none
  else (readPlainWords inFlow indent fuel isLineStart c).filter fun r => !r.text.isEmpty

/-! ## Quoted scalars -/

def namedEscape? : Char → Option Char
  | '0' => some (Char.ofNat 0)
  | 'a' => some (Char.ofNat 7)
  | 'b' => some (Char.ofNat 8)
  | 't' => some '\t'
  | '\t' => some '\t'
  | 'n' => some '\n'
  | 'v' => some (Char.ofNat 11)
  | 'f' => some (Char.ofNat 12)
  | 'r' => some '\r'
  | 'e' => some (Char.ofNat 27)
  | ' ' => some ' '
  | '"' => some '"'
  | '/' => some '/'
  | '\\' => some '\\'
  | 'N' => some (Char.ofNat 0x85)
  | '_' => some (Char.ofNat 0xA0)
  | 'L' => some (Char.ofNat 0x2028)
  | 'P' => some (Char.ofNat 0x2029)
  | _ => none

def escapeDigits : Char → Nat
  | 'x' => 2
  | 'u' => 4
  | 'U' => 8
  | _ => 0

def readCode? (digits : Nat) (cs : List Char) : Option Nat :=
  if cs.length < digits then none else Integer.readNat? 16 (cs.take digits)

def joinHalves? (high low : Nat) : Option Nat :=
  if 0xD800 ≤ high && high < 0xDC00 && 0xDC00 ≤ low && low < 0xE000 then
    some (0x10000 + (high - 0xD800) * 0x400 + (low - 0xDC00))
  else none

def charOfCode? (code : Nat) : Option Char :=
  if code.isValidChar then some (Char.ofNat code) else none

/-- The character of an escape, without its backslash, and the number of characters it takes. -/
def readEscape? : List Char → Option (Char × Nat)
  | [] => none
  | c :: rest =>
      match namedEscape? c with
      | some d => some (d, 1)
      | none =>
          let n := escapeDigits c
          if n = 0 then none
          else do
            let code ← readCode? n rest
            match c, rest.drop 4 with
            | 'u', '\\' :: 'u' :: more =>
                match (readCode? 4 more).bind (joinHalves? code) with
                | some joined => (charOfCode? joined).map (·, 11)
                | none => (charOfCode? code).map (·, 5)
            | _, _ => (charOfCode? code).map (·, n + 1)

def continuesQuoted (quote : Char) (inFlow : Bool) (indent : Int) (c : Cursor) : Bool :=
  !(c.column == 0 && startsWithMark c.rest) &&
    (inFlow || c.rest.head? == some quote || indent < c.column)

def readQuoted (quote : Char) (inFlow : Bool) (indent : Int) :
    Nat → Cursor → Option (List Char × Cursor)
  | 0, _ => none
  | fuel + 1, c =>
      let go (text : List Char) (next : Cursor) : Option (List Char × Cursor) :=
        (readQuoted quote inFlow indent fuel next).map fun r => (text ++ r.1, r.2)
      let goOver (isEscaped : Bool) (c : Cursor) : Option (List Char × Cursor) :=
        match c.gap ⟨false, false, indent⟩ false with
        | none => none
        | some gap =>
            if gap.breaks = 0 then go (c.rest.takeWhile isSpace) gap.cursor
            else if continuesQuoted quote inFlow indent gap.cursor then
              let text :=
                if isEscaped then List.replicate (gap.breaks - 1) '\n' else foldedBreaks gap.breaks
              go text gap.cursor
            else none
      match c.rest with
      | [] => none
      | x :: rest =>
          if isGapChar x then goOver false c
          else if x = quote then
            if quote = '\'' && rest.head? == some quote then go [quote] (c.skip 2)
            else some ([], c.skip 1)
          else if quote = '"' && x = '\\' then
            if rest.head? == some '\n' then goOver true (c.skip 1)
            else
              match readEscape? rest with
              | some (d, n) => go [d] (c.skip (n + 1))
              | none => none
          else go [x] (c.skip 1)

end Yaml

end TreeLint

import TreeLint.Pattern.Basic
import TreeLint.Pattern.Scan

/-!
# Parsing patterns

A pattern is read from its tokens by descent.  The parsers take the tokens that
are left and return the tokens behind what they read.  Each call spends one unit
of fuel; `compile` supplies more than the number of tokens can use up.
-/

namespace TreeLint

namespace Pattern

/-- The next token.  An exhausted list counts as ended. -/
def peek : List Located → Located
  | t :: _ => t
  | [] => ⟨.stop, 0⟩

/-- The next token and the tokens behind it; the end marker stays. -/
def advance : List Located → Located × List Located
  | t :: rest => if t.token = .stop then (t, t :: rest) else (t, rest)
  | [] => (⟨.stop, 0⟩, [])

def eat? (token : Token) : List Located → Option (List Located)
  | t :: rest => if t.token = token then some rest else none
  | [] => none

/-- The fault of a token that cannot stand where something else is expected. -/
def unexpected (found : Located) (expected : Expectation) : Fault :=
  if found.token = .stop then ⟨.unexpectedEnd expected, found.offset⟩
  else ⟨.unexpectedToken found.token expected, found.offset⟩

def expect (token : Token) (expected : Expectation) (tokens : List Located) :
    Except Fault (List Located) :=
  match eat? token tokens with
  | some rest => .ok rest
  | none => .error (unexpected (peek tokens) expected)

/-- An entry of a child list before the place of `...` is checked. -/
inductive Entry where
  | item (p : Pattern)
  | ellipsis (offset : Nat)
deriving Repr

namespace Entry

def item? : Entry → Option Pattern
  | .item p => some p
  | .ellipsis _ => none

def ellipsis? : Entry → Option Nat
  | .item _ => none
  | .ellipsis offset => some offset

end Entry

/-- Check that `...` occurs at most once, and in last place. -/
def closeList (entries : List Entry) : Except Fault (List Pattern × Arity) :=
  let items := entries.filterMap Entry.item?
  match entries.filterMap Entry.ellipsis? with
  | [] => .ok (items, .exact)
  | [offset] =>
      match entries.getLast? with
      | some (.ellipsis _) => .ok (items, .atLeast)
      | _ => .error ⟨.ellipsisNotLast, offset⟩
  | _ :: second :: _ => .error ⟨.multipleEllipsis, second⟩

def grouped : List Pattern → Pattern
  | [p] => p
  | members => .oneOf members

mutual

def parsePattern : Nat → List Located → Except Fault (Pattern × List Located)
  | 0, tokens => .error (unexpected (peek tokens) .pattern)
  | fuel + 1, tokens =>
      match eat? .bang tokens with
      | some rest => do
          let (inner, rest) ← parsePattern fuel rest
          return (.not inner, rest)
      | none =>
          match eat? .caret tokens with
          | some rest => do
              let (inner, rest) ← parsePattern fuel rest
              return (.anywhere inner, rest)
          | none => parsePrimary fuel tokens

/-- A pattern without an operator in front. -/
def parsePrimary : Nat → List Located → Except Fault (Pattern × List Located)
  | 0, tokens => .error (unexpected (peek tokens) .pattern)
  | fuel + 1, tokens =>
      let (next, rest) := advance tokens
      match next.token with
      | .underscore =>
          if (peek rest).token = .openParen then do
            let ((items, arity), rest) ← parseChildren fuel rest
            return (.children items arity, rest)
          else .ok (.any, rest)
      | .name k =>
          if (peek rest).token = .openParen then do
            let ((items, arity), rest) ← parseChildren fuel rest
            return (.node k items arity, rest)
          else .ok (.kind k, rest)
      | .string s => .ok (.literal (.string s), rest)
      | .integer n => .ok (.literal (.integer n), rest)
      | .float x => .ok (.literal (.float x), rest)
      | .true => .ok (.literal (.boolean true), rest)
      | .false => .ok (.literal (.boolean false), rest)
      | .nil => .ok (.literal .nil, rest)
      | .openBrace =>
          if (peek rest).token = .closeBrace then .error ⟨.emptyAlternation, next.offset⟩
          else do
            let (members, rest) ← parseMembers fuel rest
            let rest ← expect .closeBrace .barOrBrace rest
            return (.oneOf members, rest)
      | .openParen => do
          let (members, rest) ← parseMembers fuel rest
          let rest ← expect .closeParen .barOrParen rest
          return (grouped members, rest)
      | .ellipsis => .error ⟨.ellipsisOutsideChildren, next.offset⟩
      | .closeParen | .closeBrace | .bar | .comma | .bang | .caret | .stop =>
          .error (unexpected next .pattern)

def parseMembers : Nat → List Located → Except Fault (List Pattern × List Located)
  | 0, tokens => .error (unexpected (peek tokens) .pattern)
  | fuel + 1, tokens => do
      let (first, rest) ← parsePattern fuel tokens
      match eat? .bar rest with
      | some rest => do
          let (others, rest) ← parseMembers fuel rest
          return (first :: others, rest)
      | none => return ([first], rest)

def parseChildren : Nat → List Located →
    Except Fault ((List Pattern × Arity) × List Located)
  | 0, tokens => .error (unexpected (peek tokens) .pattern)
  | fuel + 1, tokens => do
      let rest ← expect .openParen .openParen tokens
      let (entries, rest) ←
        match eat? .closeParen rest with
        | some rest => Except.ok ([], rest)
        | none => parseEntries fuel rest
      let children ← closeList entries
      return (children, rest)

def parseEntries : Nat → List Located → Except Fault (List Entry × List Located)
  | 0, tokens => .error (unexpected (peek tokens) .pattern)
  | fuel + 1, tokens => do
      let (entry, rest) ←
        match eat? .ellipsis tokens with
        | some rest => Except.ok (Entry.ellipsis (peek tokens).offset, rest)
        | none => (parsePattern fuel tokens).map fun r => (Entry.item r.1, r.2)
      match eat? .closeParen rest with
      | some rest => return ([entry], rest)
      | none => do
          let rest ← expect .comma .commaOrParen rest
          let (entries, rest) ← parseEntries fuel rest
          return (entry :: entries, rest)

end

def parseTokens (tokens : List Located) : Except Fault Pattern := do
  let (p, rest) ← parsePattern (4 * tokens.length + 4) tokens
  let next := peek rest
  if next.token = .stop then return p
  else throw ⟨.trailingInput, next.offset⟩

def compile (text : String) : Except Error Pattern :=
  match scan text with
  | .error fault => .error ⟨text, fault⟩
  | .ok tokens =>
      match parseTokens tokens with
      | .error fault => .error ⟨text, fault⟩
      | .ok p => .ok p

end Pattern

end TreeLint

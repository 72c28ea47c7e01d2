import TreeLint.Glob.Expression
import TreeLint.Path
import TreeLint.Text.Offset

/-!
# Globs

A glob matches whole paths, byte by byte; a slash is a byte like any other,
except next to `**`.  A glob that asks for a name or an extension matches no path
that ends without one.
-/

namespace TreeLint

namespace Glob

inductive Error where
  | unclosedClass
  | invalidRange (low high : Char)
  | unopenedGroup
  | unclosedGroup
  | danglingEscape
deriving DecidableEq, Repr

def Error.message : Error → String
  | .unclosedClass => "unclosed character class; missing ']'"
  | .invalidRange low high =>
      "invalid range; '" ++ String.singleton low ++ "' > '" ++ String.singleton high ++ "'"
  | .unopenedGroup =>
      "unopened alternate group; missing '\x7b' (maybe escape '\x7d' with '[\x7d]'?)"
  | .unclosedGroup =>
      "unclosed alternate group; missing '\x7d' (maybe escape '\x7b' with '[\x7b]'?)"
  | .danglingEscape => "dangling '\\'"

/-- A part of a glob; a group holds what its branches stand for. -/
inductive Token where
  | literal (c : Char)
  | any
  | star
  /-- `**` in front: no directory, or any directories. -/
  | leading
  /-- `**` behind a slash at the end: everything beneath. -/
  | trailing
  /-- `**` between slashes: any directories, or none. -/
  | middle
  | charClass (negated : Bool) (ranges : List (Char × Char))
  | group (e : ByteExpr)
deriving DecidableEq, Repr

def slash : ByteExpr :=
  .byte 47

/--
The ranges of bytes of a range of characters: from the last byte of its first
character to the first byte of its last one, their other bytes being members of
their own.
-/
def byteRanges (low high : Char) : List (UInt8 × UInt8) :=
  let single (b : UInt8) := (b, b)
  let lowBytes := String.utf8EncodeChar low
  if low = high then lowBytes.map single
  else
    let highBytes := String.utf8EncodeChar high
    lowBytes.dropLast.map single ++
      [(lowBytes.getLastD 0, highBytes.headD 0)] ++ highBytes.tail.map single

def Token.expr : Token → ByteExpr
  | .literal c => .concat ((String.utf8EncodeChar c).map .byte)
  | .any => .anyByte
  | .star => .anyRun
  | .leading => .alt .empty (.alt slash (.chain .anyRun slash))
  | .trailing => .chain slash .anyRun
  | .middle => .alt slash (.chain slash (.chain .anyRun slash))
  | .charClass negated ranges =>
      .one ⟨negated, ranges.flatMap fun r => byteRanges r.1 r.2⟩
  | .group e => e

def branchExpr (tokens : List Token) : ByteExpr :=
  .concat (tokens.map Token.expr)

def groupExpr (branches : List (List Token)) : ByteExpr :=
  .oneOf ((branches.map branchExpr).filter (· != .empty))

/-- A group that is still open: its branches so far and the parts before it, each last one first. -/
structure Level where
  branches : List (List Token)
  before : List Token

def addMember (c : Char) (inRange : Bool) (ranges : List (Char × Char)) :
    Except Error (List (Char × Char)) :=
  match inRange, ranges with
  | true, (low, _) :: rest =>
      if c < low then .error (.invalidRange low c) else .ok ((low, c) :: rest)
  | _, _ => .ok ((c, c) :: ranges)

/--
The members of a class behind its first one, up to the bracket; `ranges` holds
the ones so far, the last one first.
-/
def readClass (inRange : Bool) (ranges : List (Char × Char)) :
    List Char → Except Error (List (Char × Char) × List Char)
  | [] => .error .unclosedClass
  | c :: cs =>
      if c = ']' then
        .ok ((if inRange then ('-', '-') :: ranges else ranges).reverse, cs)
      else if c = '-' && !inRange then readClass true ranges cs
      else
        match addMember c inRange ranges with
        | .error e => .error e
        | .ok ranges => readClass false ranges cs

def splitNegation : List Char → Bool × List Char
  | '!' :: cs => (true, cs)
  | '^' :: cs => (true, cs)
  | cs => (false, cs)

/-- A class behind its opening bracket; the first character is always a member. -/
def readClassToken (cs : List Char) : Except Error (Token × List Char) :=
  let (negated, cs) := splitNegation cs
  match cs with
  | [] => .error .unclosedClass
  | c :: rest =>
      match readClass false [(c, c)] rest with
      | .error e => .error e
      | .ok (ranges, rest) => .ok (.charClass negated ranges, rest)

theorem readClass_length {inRange : Bool} {ranges out : List (Char × Char)}
    {cs rest : List Char} (h : readClass inRange ranges cs = .ok (out, rest)) :
    rest.length < cs.length := by
  induction cs generalizing inRange ranges with
  | nil =>
      simp [readClass] at h
  | cons c cs ih =>
      unfold readClass at h
      split at h
      · simp only [Except.ok.injEq, Prod.mk.injEq] at h
        simp [← h.2]
      · split at h
        · have := ih h
          simp
          omega
        · split at h
          · simp at h
          · have := ih h
            simp
            omega

theorem readClassToken_length {cs rest : List Char} {t : Token}
    (h : readClassToken cs = .ok (t, rest)) : rest.length < cs.length := by
  have hsplit : (splitNegation cs).2.length ≤ cs.length := by
    unfold splitNegation
    split <;> simp
  simp only [readClassToken] at h
  split at h
  · simp at h
  · rename_i c tail heq
    split at h
    · simp at h
    · rename_i ranges tail' hread
      simp only [Except.ok.injEq, Prod.mk.injEq] at h
      have := readClass_length hread
      rw [heq] at hsplit
      simp only [List.length_cons] at hsplit
      rw [← h.2]
      omega

/-- Put `**` with a slash on its left behind the parts so far, which lose their last one. -/
def replaceLast (t : Token) : List Token → List Token
  | .leading :: rest => .leading :: rest
  | .trailing :: rest => .trailing :: rest
  | _ :: rest => t :: rest
  | [] => [t]

/--
The parts after `**`, and whether the slash behind it belongs to it.  `last` is
the character before, `next` the one behind.
-/
def doubleStar (isGrouped : Bool) (last next : Option Char) (branch : List Token) :
    List Token × Bool :=
  let plain := (.star :: .star :: branch, false)
  if branch.isEmpty then
    match next with
    | none => ([.leading], false)
    | some '/' => ([.leading], true)
    | some _ => plain
  else if last != some '/' && !(isGrouped && (last == some ',' || last == some '\x7b')) then plain
  else
    match next with
    | none => (replaceLast .trailing branch, false)
    | some '/' => (replaceLast .middle branch, true)
    | some c =>
        if isGrouped && (c = ',' || c = '\x7d') then (replaceLast .trailing branch, false)
        else plain

/--
The parts of a glob.  `last` is the character before the text, `branch` holds
the parts of the branch so far, the last one first, and `levels` the groups that
are open, the innermost first.
-/
def readTokens (cs : List Char) (last : Option Char) (branch : List Token)
    (levels : List Level) : Except Error (List Token) :=
  match cs with
  | [] => if levels.isEmpty then .ok branch.reverse else .error .unclosedGroup
  | c :: rest =>
      if c = '?' then readTokens rest (some c) (.any :: branch) levels
      else if c = '[' then
        match h : readClassToken rest with
        | .error e => .error e
        | .ok (t, rest') =>
            have := readClassToken_length h
            readTokens rest' (some ']') (t :: branch) levels
      else if c = '\x7b' then readTokens rest (some c) [] (⟨[], branch⟩ :: levels)
      else if c = '\x7d' then
        match levels with
        | [] => .error .unopenedGroup
        | ⟨branches, before⟩ :: levels =>
            let group := .group (groupExpr (branch.reverse :: branches).reverse)
            readTokens rest (some c) (group :: before) levels
      else if c = ',' then
        match levels with
        | [] => readTokens rest (some c) (.literal c :: branch) []
        | ⟨branches, before⟩ :: levels =>
            readTokens rest (some c) [] (⟨branch.reverse :: branches, before⟩ :: levels)
      else if c = '\\' then
        match rest with
        | [] => .error .danglingEscape
        | e :: rest => readTokens rest (some e) (.literal e :: branch) levels
      else if c = '*' then
        match rest with
        | '*' :: rest =>
            match rest, doubleStar (!levels.isEmpty) last rest.head? branch with
            | _ :: tail, (branch, true) => readTokens tail (some '/') branch levels
            | rest, (branch, _) => readTokens rest (some '*') branch levels
        | rest => readTokens rest (some c) (.star :: branch) levels
      else readTokens rest (some c) (.literal c :: branch) levels
termination_by cs.length

/-! ## Names -/

def Token.isLiteral : Token → Bool
  | .literal _ => true
  | _ => false

def isExtension : List Token → Bool
  | .literal '.' :: rest =>
      rest.all Token.isLiteral && !rest.any [.literal '.', .literal '/'].contains
  | _ => false

def startsWithExtension : List Token → Bool
  | .literal c :: rest => c == '.' || (c != '/' && startsWithExtension rest)
  | _ => false

/--
Do the parts ask for a name or an extension?  They do so behind `**/`, and if an
extension is at their end, but not if they only spell the end of the path.
-/
def asksName (tokens : List Token) : Bool :=
  let (isDeep, body) :=
    match tokens with
    | .leading :: rest => (true, rest)
    | _ => (false, tokens)
  let ending :=
    match body with
    | .star :: rest => rest
    | _ => body
  if !ending.all Token.isLiteral then startsWithExtension body.reverse
  else if ending.length < body.length then isExtension ending
  else isDeep && !body.isEmpty && !body.contains (.literal '/')

/-- Does a path end in a name?  One that ends in a slash or in `..` does not. -/
def endsInName (path : String) : Bool :=
  let last := (Path.parts path.toList).getLastD []
  last != [] && last != ['.', '.']

end Glob

/-- A glob: its text, what it stands for, and whether it matches only paths that end in a name. -/
structure Glob where
  text : String
  expr : ByteExpr
  needsName : Bool
deriving DecidableEq, Repr

namespace Glob

/-- The glob that a text denotes; `**` alone matches everything. -/
def parse (text : String) : Except Error Glob :=
  match readTokens text.toList none [] [] with
  | .error e => .error e
  | .ok tokens =>
      let expr := if tokens = [.leading] then .anyRun else branchExpr tokens
      .ok ⟨text, expr, asksName tokens⟩

def accepts (g : Glob) (path : String) : Bool :=
  (!g.needsName || endsInName path) && g.expr.accepts (Text.utf8 path)

end Glob

end TreeLint

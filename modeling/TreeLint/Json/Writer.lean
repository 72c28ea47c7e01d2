import TreeLint.Json.Basic

/-!
# JSON text

Two layouts of a JSON value: on one line, and with one element per line and two
blanks of indentation per level.
-/

namespace TreeLint

namespace Json

def paddedHex (n : Nat) : List Char :=
  let digits := Nat.toDigits 16 n
  List.replicate (4 - digits.length) '0' ++ digits

def escapeChar (c : Char) : List Char :=
  if c = '"' then ['\\', '"']
  else if c = '\\' then ['\\', '\\']
  else if c = '\n' then ['\\', 'n']
  else if c = '\r' then ['\\', 'r']
  else if c = '\t' then ['\\', 't']
  else if c.toNat = 8 then ['\\', 'b']
  else if c.toNat = 12 then ['\\', 'f']
  else if c.toNat < 32 then '\\' :: 'u' :: paddedHex c.toNat
  else [c]

def quoted (s : String) : String :=
  String.ofList ('"' :: (s.toList.flatMap escapeChar ++ ['"']))

/-- Text of a float; numbers that JSON cannot write become `null`. -/
def floatText (x : Binary64) : String :=
  if x.isFinite then x.text else "null"

mutual

def writeCompact (out : String) : Json → String
  | .null => out ++ "null"
  | .bool b => out ++ (if b then "true" else "false")
  | .integer n => out ++ Integer.text n
  | .float x => out ++ floatText x
  | .string s => out ++ quoted s
  | .array items => writeItems (out ++ "[") true items ++ "]"
  | .object fields => writeFields (out ++ "\x7b") true fields ++ "\x7d"

def writeItems (out : String) (first : Bool) : List Json → String
  | [] => out
  | j :: rest => writeItems (writeCompact (if first then out else out ++ ",") j) false rest

def writeFields (out : String) (first : Bool) : List (String × Json) → String
  | [] => out
  | (name, j) :: rest =>
      let out := if first then out else out ++ ","
      writeFields (writeCompact (out ++ quoted name ++ ":") j) false rest

end

def compact (j : Json) : String :=
  writeCompact "" j

def newLine (level : Nat) : String :=
  String.ofList ('\n' :: List.replicate (2 * level) ' ')

mutual

def prettyAt (level : Nat) : Json → String
  | .null => "null"
  | .bool b => if b then "true" else "false"
  | .integer n => Integer.text n
  | .float x => floatText x
  | .string s => quoted s
  | .array [] => "[]"
  | .array (j :: rest) =>
      "[" ++ newLine (level + 1) ++ prettyAt (level + 1) j ++
        prettyItems (level + 1) rest ++ newLine level ++ "]"
  | .object [] => "\x7b\x7d"
  | .object ((name, j) :: rest) =>
      "\x7b" ++ newLine (level + 1) ++ quoted name ++ ": " ++ prettyAt (level + 1) j ++
        prettyFields (level + 1) rest ++ newLine level ++ "\x7d"

def prettyItems (level : Nat) : List Json → String
  | [] => ""
  | j :: rest => "," ++ newLine level ++ prettyAt level j ++ prettyItems level rest

def prettyFields (level : Nat) : List (String × Json) → String
  | [] => ""
  | (name, j) :: rest =>
      "," ++ newLine level ++ quoted name ++ ": " ++ prettyAt level j ++
        prettyFields level rest

end

def pretty (j : Json) : String :=
  prettyAt 0 j

end Json

end TreeLint

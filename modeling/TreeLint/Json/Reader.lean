import TreeLint.Json.Basic

/-!
# Reading JSON text

A reader by descent.  Each call spends one unit of fuel, and the length of the
text is more than a reader can use up.
-/

namespace TreeLint

namespace Json

def skipBlank (cs : List Char) : List Char :=
  cs.dropWhile fun c => c == ' ' || c == '\t' || c == '\n' || c == '\r'

/-- The value of four hexadecimal digits and the text behind them. -/
def readHex4? : List Char → Option (Nat × List Char)
  | a :: b :: c :: d :: rest => (Integer.readNat? 16 [a, b, c, d]).map (·, rest)
  | _ => none

/-- The character behind `\u`: one number, or two that form a surrogate pair. -/
def readUnicode? (cs : List Char) : Option (Char × List Char) :=
  match readHex4? cs with
  | none => none
  | some (high, rest) =>
      if 0xD800 ≤ high && high ≤ 0xDBFF then
        match rest with
        | '\\' :: 'u' :: rest =>
            match readHex4? rest with
            | some (low, rest) =>
                if 0xDC00 ≤ low && low ≤ 0xDFFF then
                  some (Char.ofNat (0x10000 + (high - 0xD800) * 0x400 + (low - 0xDC00)), rest)
                else none
            | none => none
        | _ => none
      else if 0xDC00 ≤ high && high ≤ 0xDFFF then none
      else some (Char.ofNat high, rest)

def readEscape? : List Char → Option (Char × List Char)
  | '"' :: rest => some ('"', rest)
  | '\\' :: rest => some ('\\', rest)
  | '/' :: rest => some ('/', rest)
  | 'b' :: rest => some (Char.ofNat 8, rest)
  | 'f' :: rest => some (Char.ofNat 12, rest)
  | 'n' :: rest => some ('\n', rest)
  | 'r' :: rest => some ('\r', rest)
  | 't' :: rest => some ('\t', rest)
  | 'u' :: rest => readUnicode? rest
  | _ => none

/-- The rest of a string; `acc` holds the characters read so far, the last one first. -/
def readString? : Nat → List Char → List Char → Option (String × List Char)
  | 0, _, _ => none
  | fuel + 1, acc, cs =>
      match cs with
      | [] => none
      | '"' :: rest => some (String.ofList acc.reverse, rest)
      | '\\' :: rest =>
          match readEscape? rest with
          | some (c, rest) => readString? fuel (c :: acc) rest
          | none => none
      | c :: rest => if c.toNat < 32 then none else readString? fuel (c :: acc) rest

def isNumberChar (c : Char) : Bool :=
  c.isDigit || c == '-' || c == '+' || c == '.' || c == 'e' || c == 'E'

def numberOf? (cs : List Char) : Option Json :=
  let (negative, body) :=
    match cs with
    | '-' :: rest => (true, rest)
    | _ => (false, cs)
  let (whole, rest) := Binary64.splitDigits body
  if whole.isEmpty || (whole.length > 1 && whole.head? == some '0') then none
  else
    let value : Int := Nat.ofDigitChars 10 whole 0
    let signed := if negative then -value else value
    let fits := -0x8000000000000000 ≤ signed && signed < 0x10000000000000000
    let isWord := fits && !(negative && value == 0)
    if rest.isEmpty && isWord then some (.integer signed)
    else
      let (part, _) := Binary64.splitFraction rest
      if rest.head? == some '.' && part.isEmpty then none
      else
        (((Binary64.readDecimal? body).map (Binary64.ofDecimal negative)).filter
          Binary64.isFinite).map .float

def readNumber? (cs : List Char) : Option (Json × List Char) :=
  (numberOf? (cs.takeWhile isNumberChar)).map (·, cs.dropWhile isNumberChar)

mutual

def readValue? : Nat → List Char → Option (Json × List Char)
  | 0, _ => none
  | fuel + 1, cs =>
      match skipBlank cs with
      | 'n' :: 'u' :: 'l' :: 'l' :: rest => some (.null, rest)
      | 't' :: 'r' :: 'u' :: 'e' :: rest => some (.bool true, rest)
      | 'f' :: 'a' :: 'l' :: 's' :: 'e' :: rest => some (.bool false, rest)
      | '"' :: rest => (readString? (rest.length + 1) [] rest).map fun r => (.string r.1, r.2)
      | '[' :: rest =>
          match skipBlank rest with
          | ']' :: rest => some (.array [], rest)
          | rest => (readItems? fuel [] rest).map fun r => (.array r.1, r.2)
      | '\x7b' :: rest =>
          match skipBlank rest with
          | '\x7d' :: rest => some (.object [], rest)
          | rest => (readFields? fuel [] rest).map fun r => (.object r.1, r.2)
      | rest => readNumber? rest

/-- The items of an array up to its bracket; `acc` holds the ones before, the last one first. -/
def readItems? : Nat → List Json → List Char → Option (List Json × List Char)
  | 0, _, _ => none
  | fuel + 1, acc, cs =>
      match readValue? fuel cs with
      | none => none
      | some (j, rest) =>
          match skipBlank rest with
          | ',' :: rest => readItems? fuel (j :: acc) rest
          | ']' :: rest => some ((j :: acc).reverse, rest)
          | _ => none

/-- The fields of an object up to its brace; `acc` holds the ones before. -/
def readFields? : Nat → List (String × Json) → List Char →
    Option (List (String × Json) × List Char)
  | 0, _, _ => none
  | fuel + 1, acc, cs =>
      match skipBlank cs with
      | '"' :: rest =>
          match readString? (rest.length + 1) [] rest with
          | none => none
          | some (name, rest) =>
              match skipBlank rest with
              | ':' :: rest =>
                  match readValue? fuel rest with
                  | none => none
                  | some (j, rest) =>
                      match skipBlank rest with
                      | ',' :: rest => readFields? fuel (put acc name j) rest
                      | '\x7d' :: rest => some (put acc name j, rest)
                      | _ => none
              | _ => none
      | _ => none

end

def read? (text : String) : Option Json :=
  let cs := text.toList
  match readValue? (2 * cs.length + 2) cs with
  | some (j, rest) => if (skipBlank rest).isEmpty then some j else none
  | none => none

end Json

end TreeLint

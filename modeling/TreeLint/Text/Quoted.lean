import TreeLint.Text.Hidden

/-!
# Quoted text

Text between double quotes, in the form in which a string is shown to the user
and in which a pattern prints its string literals.  Which characters are written
by their number is a parameter; a text that is shown uses `isHidden`.
-/

namespace TreeLint

namespace Text

def quoteChar (hidden : Char → Bool) (c : Char) : List Char :=
  if c = '"' then ['\\', '"']
  else if c = '\\' then ['\\', '\\']
  else if c = '\n' then ['\\', 'n']
  else if c = '\r' then ['\\', 'r']
  else if c = '\t' then ['\\', 't']
  else if c.toNat = 0 then ['\\', '0']
  else if hidden c then
    ['\\', 'u', '\x7b'] ++ Nat.toDigits 16 c.toNat ++ ['\x7d']
  else [c]

def quoteChars (hidden : Char → Bool) (cs : List Char) : List Char :=
  '"' :: (cs.flatMap (quoteChar hidden) ++ ['"'])

/-- The text in double quotes, with escapes where a character needs one. -/
def quote (s : String) : String :=
  String.ofList (quoteChars isHidden s.toList)

end Text

end TreeLint

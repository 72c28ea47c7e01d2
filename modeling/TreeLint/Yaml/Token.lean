/-!
# YAML tokens

The tokens of a YAML text.  Block collections have no signs of their own: their
indentation gives them a first token and a last one.
-/

namespace TreeLint

namespace Yaml

inductive Token where
  /-- `---`. -/
  | documentStart
  /-- `...`. -/
  | documentEnd
  | textEnd
  | blockSequence
  | blockMapping
  | blockEnd
  | openBracket
  | closeBracket
  | openBrace
  | closeBrace
  | comma
  | dash
  /-- The start of a key, with or without a question mark. -/
  | key
  /-- The colon in front of a value. -/
  | value
  | scalar (isPlain : Bool) (text : String)
deriving DecidableEq, Repr

namespace Token

def startsNode : Token → Bool
  | .blockSequence => true
  | .blockMapping => true
  | .openBracket => true
  | .openBrace => true
  | .scalar _ _ => true
  | _ => false

def isBoundary : Token → Bool
  | .documentStart => true
  | .documentEnd => true
  | .textEnd => true
  | _ => false

end Token

end Yaml

end TreeLint

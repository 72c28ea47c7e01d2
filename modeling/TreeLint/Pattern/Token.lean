import TreeLint.Syntax.Value

/-!
# Tokens and faults of pattern text

The words of the pattern language, and the reasons for which a text is not a
pattern.  Every token and every fault has a byte offset in the text.
-/

namespace TreeLint

namespace Pattern

/-- A word or sign of pattern text; the list of tokens always ends with `stop`. -/
inductive Token where
  | name (text : String)
  | underscore
  | ellipsis
  | string (text : String)
  | integer (n : Int64)
  | float (x : Binary64)
  | true
  | false
  | nil
  | openParen
  | closeParen
  | openBrace
  | closeBrace
  | bar
  | comma
  | bang
  | caret
  | stop
deriving DecidableEq, Repr

namespace Token

def text : Token → String
  | .name s => "identifier '" ++ s ++ "'"
  | .underscore => "'_'"
  | .ellipsis => "'...'"
  | .string s => "string " ++ Text.quote s
  | .integer n => "integer " ++ Integer.text n.toInt
  | .float x => "float " ++ x.text
  | .true => "'true'"
  | .false => "'false'"
  | .nil => "'nil'"
  | .openParen => "'('"
  | .closeParen => "')'"
  | .openBrace => "'\x7b'"
  | .closeBrace => "'\x7d'"
  | .bar => "'|'"
  | .comma => "','"
  | .bang => "'!'"
  | .caret => "'^'"
  | .stop => "end of pattern"

end Token

/-- A token and the byte offset at which it begins. -/
structure Located where
  token : Token
  offset : Nat
deriving DecidableEq, Repr

inductive Expectation where
  | ellipsis
  | pattern
  | openParen
  | barOrBrace
  | barOrParen
  | commaOrParen
deriving DecidableEq, Repr

def Expectation.text : Expectation → String
  | .ellipsis => "'...'"
  | .pattern => "a pattern"
  | .openParen => "'('"
  | .barOrBrace => "'|' or '\x7d'"
  | .barOrParen => "'|' or ')'"
  | .commaOrParen => "',' or ')'"

inductive Cause where
  | unexpectedCharacter (c : Char)
  | unterminatedString
  | invalidEscape (c : Char)
  | invalidNumber (text : String)
  | unexpectedToken (found : Token) (expected : Expectation)
  | unexpectedEnd (expected : Expectation)
  | ellipsisNotLast
  | multipleEllipsis
  | ellipsisOutsideChildren
  | emptyAlternation
  | trailingInput
deriving DecidableEq, Repr

def Cause.message : Cause → String
  | .unexpectedCharacter c => "unexpected character '" ++ String.singleton c ++ "'"
  | .unterminatedString => "unterminated string literal"
  | .invalidEscape c => "invalid escape sequence '\\" ++ String.singleton c ++ "'"
  | .invalidNumber text => "invalid number '" ++ text ++ "'"
  | .unexpectedToken found expected =>
      "unexpected " ++ found.text ++ ", expected " ++ expected.text
  | .unexpectedEnd expected => "unexpected end of pattern, expected " ++ expected.text
  | .ellipsisNotLast => "'...' must be the last child"
  | .multipleEllipsis => "a child list may contain only one '...'"
  | .ellipsisOutsideChildren => "'...' is only allowed inside a child list"
  | .emptyAlternation => "alternation needs at least one member"
  | .trailingInput => "unexpected input after the end of the pattern"

/-- A cause and the byte offset at which it shows. -/
structure Fault where
  cause : Cause
  position : Nat
deriving DecidableEq, Repr

/-- A fault together with the pattern text it was found in. -/
structure Error where
  text : String
  fault : Fault
deriving DecidableEq, Repr

def Error.message (e : Error) : String :=
  e.fault.cause.message ++ " at offset " ++ Integer.text e.fault.position ++
    " in pattern `" ++ e.text ++ "`"

end Pattern

end TreeLint

/-!
# Rule definitions

Rules as they are written in a rule file, before patterns and globs are read.
-/

namespace TreeLint

inductive Severity where
  | error
  | warning
  | info
  | hint
deriving DecidableEq, Repr

namespace Severity

def name : Severity → String
  | .error => "error"
  | .warning => "warning"
  | .info => "info"
  | .hint => "hint"

def ofName? (name : String) : Option Severity :=
  [.error, .warning, .info, .hint].find? (·.name == name)

end Severity

/-- The patterns of a rule: a single text, or a list of alternatives. -/
inductive PatternTexts where
  | one (text : String)
  | many (texts : List String)
deriving DecidableEq, Repr

def PatternTexts.toList : PatternTexts → List String
  | .one text => [text]
  | .many texts => texts

structure RuleDefinition where
  id : String
  pattern : PatternTexts
  message : String
  severity : Severity := .warning
  tags : List String := []
  justification : List String := []
  includes : List String := []
  excludes : List String := []
deriving DecidableEq, Repr

/-- The content of a rule file: rules, and globs of files to leave out. -/
structure RuleFile where
  rules : List RuleDefinition := []
  excludes : List String := []
deriving DecidableEq, Repr

end TreeLint

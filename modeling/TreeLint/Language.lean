import TreeLint.Path
import TreeLint.Text.Whitespace

/-!
# Languages

The languages whose sources can be scanned, and how a file extension or a name
selects one.
-/

namespace TreeLint

inductive Language where
  | rust
  | python
  | typescript
deriving DecidableEq, Repr

/-- Why no concrete tree could be made from a source file. -/
inductive SourceError where
  | unknownLanguage (path : String)
  | unsupportedExtension (extension : String)
  | parserStart (language : Language) (detail : String)
  | parse (language : Language) (detail : String)
deriving DecidableEq, Repr

namespace Language

def all : List Language :=
  [.rust, .python, .typescript]

def name : Language → String
  | .rust => "rust"
  | .python => "python"
  | .typescript => "typescript"

/-- The file extensions of the language, without the point. -/
def extensions : Language → List String
  | .rust => ["rs"]
  | .python => ["py", "pyi"]
  | .typescript => ["ts", "tsx", "mts", "cts"]

def ofExtension? (extension : String) : Option Language :=
  all.find? fun l => l.extensions.any (· == Text.asciiLower extension)

def ofPath? (path : String) : Option Language :=
  (Path.extension? path).bind ofExtension?

def detect (path : String) : Except SourceError Language :=
  match Path.extension? path with
  | none => .error (.unknownLanguage path)
  | some extension =>
      match ofExtension? extension with
      | some l => .ok l
      | none => .error (.unsupportedExtension extension)

/-- A language name without blanks around it and in lower case. -/
def normalizeName (name : String) : String :=
  Text.asciiLower (Text.trim name)

def ofName? (name : String) : Option Language :=
  let word := normalizeName name
  if word = "rust" || word = "rs" then some .rust
  else if word = "python" || word = "py" then some .python
  else if word = "typescript" || word = "ts" then some .typescript
  else none

def unsupportedMessage (name : String) : String :=
  "unsupported language: '" ++ normalizeName name ++ "'"

end Language

def SourceError.message : SourceError → String
  | .unknownLanguage path => "could not determine language for path: " ++ path
  | .unsupportedExtension extension => "unsupported file extension: " ++ extension
  | .parserStart language detail =>
      "failed to initialise parser for " ++ language.name ++ ": " ++ detail
  | .parse language detail => "failed to parse " ++ language.name ++ ": " ++ detail

end TreeLint

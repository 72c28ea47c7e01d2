import TreeLint.FileSystem
import TreeLint.RuleFile.Decode
import TreeLint.Text.Whitespace

/-!
# Loading rule files

Where a rule file is searched for, and why it may not be loaded.  Any decoder may be given
for its text.
-/

namespace TreeLint

/-- Why no rule file could be loaded. -/
inductive RuleFileError where
  | notFound (candidates : List String)
  | unreadable (path : String) (cause : ReadError)
  | invalid (path : String)
deriving DecidableEq, Repr

/-- The wording of a rule file error; `detail` says what is wrong with an invalid file. -/
def RuleFileError.message (detail : String) : RuleFileError → String
  | .notFound candidates => "rule file not found: " ++ ", ".intercalate candidates
  | .unreadable path cause => "failed to read rule file " ++ path ++ ": " ++ cause.message
  | .invalid path => "invalid rule file " ++ path ++ ": " ++ detail

namespace RuleFile

/-- The rule file of a text; a blank text is the empty one and is not decoded. -/
def ofText (text path : String) (decode : Decoder := Yaml.decoder) :
    Except RuleFileError RuleFile :=
  if text.toList.all Text.isBlank then .ok ⟨[], []⟩
  else
    match decode text with
    | some file => .ok file
    | none => .error (.invalid path)

def load (fs : FileSystem) (path : String) (decode : Decoder := Yaml.decoder) :
    Except RuleFileError RuleFile :=
  match fs.readText path with
  | .error cause => .error (.unreadable path cause)
  | .ok text => ofText text path decode

def defaultNames : List String :=
  ["quarry.yml", "quarry.yaml"]

def candidates (given : Option String) (directory : String) : List String :=
  match given with
  | some path => [path]
  | none => defaultNames.map (Path.join directory)

def locate (fs : FileSystem) (given : Option String) (directory : String) :
    Except RuleFileError String :=
  let paths := candidates given directory
  match paths.find? fs.isFile with
  | some path => .ok path
  | none => .error (.notFound paths)

end RuleFile

end TreeLint

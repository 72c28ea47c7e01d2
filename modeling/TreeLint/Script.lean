import TreeLint.Concrete.Conversion
import TreeLint.Concrete.Fault
import TreeLint.Language

/-!
# Scripts

A script is one source file with its syntax tree.  A source in which the parser
found an error never becomes a script.
-/

namespace TreeLint

abbrev SourceParser := Language → String → Except SourceError Concrete

structure Script where
  path : String
  language : Language
  source : String
  root : Node
deriving Repr

/-- Why a script could not be loaded. -/
inductive ScriptError where
  | unreadable (reason : String)
  | unsupportedLanguage (path : String)
  /-- The first error of the source, and how many there are. -/
  | malformed (line column : Nat) (detail : String) (count : Nat)
  | noTree (cause : SourceError)
deriving DecidableEq, Repr

def ScriptError.message : ScriptError → String
  | .unreadable reason => "failed to read script: " ++ reason
  | .unsupportedLanguage path => "no supported language for " ++ path
  | .malformed line column detail _ =>
      "syntax error at line " ++ Integer.text line ++ ", column " ++ Integer.text column ++
        ": " ++ detail
  | .noTree cause => "parser failure: " ++ cause.message

namespace Script

def ofConcrete (path : String) (language : Language) (source : String) (tree : Concrete) :
    Except ScriptError Script :=
  let script : Script := ⟨path, language, source, tree.toNode source⟩
  if tree.head.hasError then
    match tree.faults source with
    | [] => .ok script
    | first :: rest =>
        .error (.malformed first.place.1 first.place.2 first.message (rest.length + 1))
  else .ok script

def parseAs (parser : SourceParser) (path : String) (language : Language) (source : String) :
    Except ScriptError Script :=
  match parser language source with
  | .error cause => .error (.noTree cause)
  | .ok tree => ofConcrete path language source tree

def languageOf (path : String) : Except ScriptError Language :=
  match Language.detect path with
  | .error _ => .error (.unsupportedLanguage path)
  | .ok language => .ok language

def parse (parser : SourceParser) (path source : String) : Except ScriptError Script :=
  match languageOf path with
  | .error e => .error e
  | .ok language => parseAs parser path language source

end Script

end TreeLint

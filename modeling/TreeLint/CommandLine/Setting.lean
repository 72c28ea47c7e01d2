import TreeLint.Language

/-!
# Options of the command line

The options, what they stand for, and why a command line may be refused.
-/

namespace TreeLint

namespace CommandLine

/-- How the findings of a check are written. -/
inductive Layout where
  | text
  | json
deriving DecidableEq, Repr

inductive LogFormat where
  | json
  | compact
deriving DecidableEq, Repr

inductive Setting where
  | config
  | root
  | logFilter
  | logFormat
  | layout
  | rule
  | language
deriving DecidableEq, Repr

namespace Setting

def all : List Setting :=
  [.config, .root, .logFilter, .logFormat, .layout, .rule, .language]

/-- The name of the option, without its dashes. -/
def name : Setting → String
  | .config => "config"
  | .root => "root"
  | .logFilter => "log-filter"
  | .logFormat => "log-format"
  | .layout => "format"
  | .rule => "rule"
  | .language => "language"

def placeholder : Setting → String
  | .config => "PATH"
  | .root => "DIR"
  | .logFilter => "FILTER"
  | .logFormat => "FORMAT"
  | .layout => "FORMAT"
  | .rule => "ID"
  | .language => "LANG"

def text (s : Setting) : String :=
  "--" ++ s.name ++ " <" ++ s.placeholder ++ ">"

def isGlobal : Setting → Bool
  | .config => true
  | .root => true
  | .logFilter => true
  | .logFormat => true
  | .layout => false
  | .rule => false
  | .language => false

end Setting

inductive Verb where
  | check
  | test
  | rules
  | version
deriving DecidableEq, Repr

namespace Verb

def name : Verb → String
  | .check => "check"
  | .test => "test"
  | .rules => "rules"
  | .version => "version"

def ofName? (name : String) : Option Verb :=
  [.check, .test, .rules, .version].find? (·.name == name)

def takesOperands : Verb → Bool
  | .check => true
  | .rules => true
  | .test => false
  | .version => false

end Verb

inductive UsageError where
  | unexpectedArgument (text : String)
  | unexpectedValue (flag value : String)
  | unknownCommand (text : String)
  | missingCommand
  | missingValue (setting : Setting)
  | repeated (setting : Setting)
  | invalidValue (setting : Setting) (value : String) (detail : Option String)
deriving DecidableEq, Repr

def programName : String :=
  "quarry"

def UsageError.message : UsageError → String
  | .unexpectedArgument text => "error: unexpected argument '" ++ text ++ "' found"
  | .unexpectedValue flag value =>
      "error: unexpected value '" ++ value ++ "' for '" ++ flag ++
        "' found; no more were expected"
  | .unknownCommand text => "error: unrecognized subcommand '" ++ text ++ "'"
  | .missingCommand =>
      "error: '" ++ programName ++ "' requires a subcommand but one was not provided"
  | .missingValue s => "error: a value is required for '" ++ s.text ++ "' but none was supplied"
  | .repeated s => "error: the argument '" ++ s.text ++ "' cannot be used multiple times"
  | .invalidValue s value detail =>
      "error: invalid value '" ++ value ++ "' for '" ++ s.text ++ "'" ++
        detail.elim "" (": " ++ ·)

def Layout.ofName? (name : String) : Option Layout :=
  if name = "text" then some .text else if name = "json" then some .json else none

def LogFormat.ofName? (name : String) : Option LogFormat :=
  let word := Text.asciiLower name
  if word = "json" then some .json else if word = "compact" then some .compact else none

structure Values where
  config : Option String := none
  root : Option String := none
  logFilter : Option String := none
  logFormat : Option LogFormat := none
  layout : Option Layout := none
  rules : List String := []
  languages : List Language := []
  operands : List String := []
deriving DecidableEq, Repr

namespace Values

def once {α : Type} (setting : Setting) (old : Option α) (new : Except UsageError α) :
    Except UsageError (Option α) :=
  if old.isSome then .error (.repeated setting) else new.map some

/-- Read the layout of findings; an empty value counts as none. -/
def readLayout (value : String) : Except UsageError Layout :=
  match Layout.ofName? value with
  | some l => .ok l
  | none =>
      if value.isEmpty then .error (.missingValue .layout)
      else .error (.invalidValue .layout value none)

def readLogFormat (value : String) : Except UsageError LogFormat :=
  match LogFormat.ofName? value with
  | some f => .ok f
  | none => .error (.invalidValue .logFormat value (some "Matching variant not found"))

def readLanguage (value : String) : Except UsageError Language :=
  match Language.ofName? value with
  | some l => .ok l
  | none =>
      .error (.invalidValue .language value (some (Language.unsupportedMessage value)))

def set (vs : Values) (setting : Setting) (value : String) : Except UsageError Values :=
  match setting with
  | .config => (once setting vs.config (.ok value)).map fun x => { vs with config := x }
  | .root => (once setting vs.root (.ok value)).map fun x => { vs with root := x }
  | .logFilter => (once setting vs.logFilter (.ok value)).map fun x => { vs with logFilter := x }
  | .logFormat =>
      (once setting vs.logFormat (readLogFormat value)).map fun x => { vs with logFormat := x }
  | .layout => (once setting vs.layout (readLayout value)).map fun x => { vs with layout := x }
  | .rule => .ok { vs with rules := vs.rules ++ [value] }
  | .language => (readLanguage value).map fun l => { vs with languages := vs.languages ++ [l] }

def isEmpty (vs : Values) : Bool :=
  decide (vs = {})

def withOuter (inner outer : Values) : Values :=
  { inner with
    config := inner.config.or outer.config
    root := inner.root.or outer.root
    logFilter := inner.logFilter.or outer.logFilter
    logFormat := inner.logFormat.or outer.logFormat }

end Values

end CommandLine

end TreeLint

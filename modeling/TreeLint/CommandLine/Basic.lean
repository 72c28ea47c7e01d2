import TreeLint.CommandLine.Arguments
import TreeLint.CommandLine.LogFilter
import TreeLint.Discovery
import TreeLint.Report.Basic
import TreeLint.Report.Document
import TreeLint.Report.RuleListing
import TreeLint.RuleFile.Basic

/-!
# Commands

What each command does, as a function from its surroundings to what it writes.
A fatal error comes before any report.
-/

namespace TreeLint

namespace CommandLine

structure Surroundings where
  files : FileSystem
  parser : SourceParser
  /-- How the text of a rule file is decoded. -/
  decoder : RuleFile.Decoder := Yaml.decoder
  /-- The log filter that the user has set for all commands. -/
  logVariable : Option String := none
  /-- Is a log open already?  Its filter is not read again then. -/
  logIsOpen : Bool := false

/-- Why a command stops without a report. -/
inductive Failure where
  | ruleFile (error : RuleFileError)
  | rule (error : RuleError)
  | logFilter (fault : LogFilter.Fault)
deriving DecidableEq, Repr

/-- The wording of texts that do not follow from the command and its surroundings. -/
structure Wording where
  help : String
  usage : UsageError → String
  /-- What is said of a rule file that cannot be read. -/
  invalidFile : String

def Failure.message (w : Wording) : Failure → String
  | .ruleFile e => e.message w.invalidFile
  | .rule e => e.message
  | .logFilter fault => "invalid log filter: " ++ fault.message

def loadRules (s : Surroundings) (vs : Values) : Except Failure (String × RuleFile) :=
  match RuleFile.locate s.files vs.config "." with
  | .error e => .error (.ruleFile e)
  | .ok path =>
      match RuleFile.load s.files path s.decoder with
      | .error e => .error (.ruleFile e)
      | .ok file => .ok (path, file)

def chooseRules (file : RuleFile) (ids : List String) : Except RuleError RuleSet :=
  match RuleSet.build file.rules with
  | .error e => .error e
  | .ok rules => if ids.isEmpty then .ok rules else rules.select ids

/-- The directory that globs are written against: a given one, or that of the rule file. -/
def rootPath (vs : Values) (rulePath : String) : String :=
  match vs.root with
  | some path => path
  | none =>
      match Path.parent? rulePath with
      | some parent => if parent.isEmpty then "." else parent
      | none => "."

def fileOwner : String :=
  "exclude"

def inputs (vs : Values) : List String :=
  if vs.operands.isEmpty then ["."] else vs.operands

def checkEvents (s : Surroundings) (vs : Values) (root : ProjectRoot) (rules : RuleSet)
    (filter : PathFilter) : List Event :=
  let discovery : Discovery := ⟨s.files, root, filter, vs.languages⟩
  (Analysis.start rules root).runEvents (discovery.scripts s.parser (inputs vs))

def report (layout : Layout) (events : List Event) : String :=
  match layout with
  | .text => textReport events
  | .json => (Report.ofEvents events).document

def check (s : Surroundings) (vs : Values) : Except Failure String :=
  match loadRules s vs with
  | .error e => .error e
  | .ok (path, file) =>
      match chooseRules file vs.rules with
      | .error e => .error (.rule e)
      | .ok rules =>
          match PathFilter.build fileOwner [] file.excludes with
          | .error e => .error (.rule e)
          | .ok filter =>
              let root := ProjectRoot.ofPath s.files (rootPath vs path)
              .ok (report (vs.layout.getD .text) (checkEvents s vs root rules filter))

def fileProblems (file : RuleFile) : List RuleError :=
  RuleSet.problems file.rules ++ PathFilter.problems fileOwner [] file.excludes

def test (s : Surroundings) (vs : Values) : Except Failure (Bool × String) :=
  match loadRules s vs with
  | .error e => .error e
  | .ok (_, file) =>
      let problems := fileProblems file
      .ok (problems.isEmpty, problemListing file.rules.length problems)

def listRules (s : Surroundings) (vs : Values) : Except Failure String :=
  match loadRules s vs with
  | .error e => .error e
  | .ok (_, file) =>
      match chooseRules file vs.operands with
      | .error e => .error (.rule e)
      | .ok rules => .ok rules.listing

def versionText : String :=
  programName ++ " 0.1.0"

def logFilter (s : Surroundings) (vs : Values) : String :=
  (vs.logFilter.or s.logVariable).getD "warn"

def openLog (s : Surroundings) (vs : Values) : Except Failure Unit :=
  if s.logIsOpen then .ok ()
  else
    match LogFilter.fault? (logFilter s vs) with
    | some fault => .error (.logFilter fault)
    | none => .ok ()

def runVerb (s : Surroundings) (verb : Verb) (vs : Values) : Except Failure (Bool × String) :=
  match openLog s vs with
  | .error e => .error e
  | .ok () =>
      match verb with
      | .check => (check s vs).map (true, ·)
      | .test => test s vs
      | .rules => (listRules s vs).map (true, ·)
      | .version => .ok (true, endLine versionText)

structure Outcome where
  success : Bool
  out : String
  err : String
deriving DecidableEq, Repr

def run (w : Wording) (s : Surroundings) (args : List String) : Outcome :=
  match readOuter s.logVariable.isSome {} args with
  | .error (.help true) => ⟨true, w.help, ""⟩
  | .error (.help false) => ⟨false, "", w.help⟩
  | .error (.usage e) => ⟨false, "", w.usage e⟩
  | .ok (verb, vs) =>
      match runVerb s verb vs with
      | .error e => ⟨false, "", endLine ("error: " ++ e.message w)⟩
      | .ok (success, out) => ⟨success, out, ""⟩

end CommandLine

end TreeLint

import TreeLint.Analysis.Event
import TreeLint.Json.Writer

/-!
# JSON reports

A whole run as one document: the issues, and the scripts that could not be
loaded.
-/

namespace TreeLint

namespace Report

structure IssueRecord where
  script : String
  rule : String
  severity : Severity
  message : String
  tags : List String
  justification : List String
  start : Nat × Nat
  stop : Nat × Nat
  source : String
deriving DecidableEq, Repr

/-- What a document tells of a script that could not be loaded. -/
structure FailureRecord where
  path : String
  message : String
deriving DecidableEq, Repr

def IssueRecord.ofIssue (i : Issue) : IssueRecord where
  script := i.script.path
  rule := i.rule.id
  severity := i.rule.definition.severity
  message := i.rule.definition.message
  tags := i.rule.definition.tags
  justification := i.rule.definition.justification
  start := i.node.span.start.oneBased
  stop := i.node.span.stop.oneBased
  source := i.sourceText

def texts (xs : List String) : Json :=
  .array (xs.map .string)

def place (p : Nat × Nat) : Json :=
  .array [.integer p.1, .integer p.2]

def IssueRecord.toJson (r : IssueRecord) : Json :=
  .object [
    ("script", .string r.script),
    ("rule", .object [
      ("id", .string r.rule),
      ("severity", .string r.severity.name),
      ("message", .string r.message),
      ("tags", texts r.tags),
      ("justification", texts r.justification)]),
    ("location", .object [("start", place r.start), ("end", place r.stop)]),
    ("source", .string r.source)]

def FailureRecord.toJson (r : FailureRecord) : Json :=
  .object [("path", .string r.path), ("message", .string r.message)]

end Report

structure Report where
  issues : List Report.IssueRecord := []
  failures : List Report.FailureRecord := []
deriving DecidableEq, Repr

namespace Report

/-- A report with one more event; a script that was loaded leaves no trace. -/
def add (r : Report) : Event → Report
  | .loaded _ => r
  | .failed path e => { r with failures := r.failures ++ [⟨path, e.message⟩] }
  | .found issue => { r with issues := r.issues ++ [.ofIssue issue] }

def ofEvents (events : List Event) : Report :=
  events.foldl add {}

def toJson (r : Report) : Json :=
  .object [
    ("issues", .array (r.issues.map IssueRecord.toJson)),
    ("errors", .array (r.failures.map FailureRecord.toJson))]

def document (r : Report) : String :=
  r.toJson.pretty ++ "\n"

end Report

end TreeLint

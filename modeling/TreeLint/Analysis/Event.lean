import TreeLint.Rule.Basic
import TreeLint.Script

/-!
# Events of an analysis

What an analysis reports: a script that was loaded, a script that failed, or an
issue that a rule found.
-/

namespace TreeLint

/-- A node of a script that a pattern of a rule matches. -/
structure Issue where
  script : Script
  rule : Rule
  pattern : SourcePattern
  node : Node
deriving Repr

namespace Issue

def sourceLine (i : Issue) : String :=
  i.node.span.firstLine i.script.source

def sourceText (i : Issue) : String :=
  i.node.span.text i.script.source

end Issue

/-- One thing that an analysis reports. -/
inductive Event where
  | loaded (script : Script)
  | failed (path : String) (error : ScriptError)
  | found (issue : Issue)
deriving Repr

def Event.text : Event → String
  | .loaded script => "loaded " ++ script.path
  | .failed path error => "failed " ++ path ++ ": " ++ error.message
  | .found issue =>
      let (line, column) := issue.node.span.start.oneBased
      "issue " ++ issue.script.path ++ ":" ++ Integer.text line ++ ":" ++ Integer.text column ++
        " " ++ issue.rule.id ++ " [" ++ issue.node.kind ++ "] `" ++ issue.pattern.source ++ "`"

end TreeLint

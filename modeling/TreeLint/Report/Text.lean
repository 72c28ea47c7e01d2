import TreeLint.Analysis.Event

/-!
# Text reports

One record per failed script and per issue, with tabs between its columns.
-/

namespace TreeLint

namespace Issue

/-- The record of an issue: its place, its source line, and what the rule has to tell. -/
def record (i : Issue) : String :=
  let (line, column) := i.node.span.start.oneBased
  i.script.path ++ ":" ++ Integer.text line ++ ":" ++ Integer.text column ++ "\t" ++
    i.sourceLine ++ "\t" ++ i.rule.definition.message ++ " (" ++ i.rule.id ++ ")"

end Issue

namespace Event

def record? : Event → Option String
  | .loaded _ => none
  | .failed path e => some (path ++ "\terror: " ++ e.message)
  | .found issue => some issue.record

end Event

def endLine (text : String) : String :=
  text ++ "\n"

def textReport (events : List Event) : String :=
  String.join ((events.filterMap Event.record?).map endLine)

end TreeLint

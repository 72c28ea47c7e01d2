import TreeLint.Report.Text
import TreeLint.Rule.Basic

/-!
# Rule listings

The rules of a set as indented blocks, and the problems of rule definitions as
one line each with a summary behind them.
-/

namespace TreeLint

def Rule.listing (r : Rule) : List String :=
  let d := r.definition
  [d.id, "  severity: " ++ d.severity.name, "  message: " ++ d.message, "  patterns:"] ++
    r.patterns.map (fun p => "    - " ++ p.source) ++
    (if d.tags.isEmpty then [] else ["  tags: " ++ ", ".intercalate d.tags])

def RuleSet.listing (s : RuleSet) : String :=
  String.join ((s.rules.flatMap Rule.listing).map endLine)

def counted (n : Nat) (noun : String) : String :=
  Integer.text n ++ " " ++ (if n = 1 then noun else noun ++ "s")

def RuleError.line (e : RuleError) : String :=
  "error: " ++ e.message

def problemListing (checked : Nat) (problems : List RuleError) : String :=
  let summary := counted checked "rule" ++ " checked, " ++ counted problems.length "error"
  String.join ((problems.map RuleError.line ++ [summary]).map endLine)

end TreeLint

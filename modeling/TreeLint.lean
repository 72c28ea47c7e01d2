import TreeLint.Main
import TreeLint.Proofs.Analysis.Log
import TreeLint.Proofs.Analysis.Schedule
import TreeLint.Proofs.CommandLine.Exclusion
import TreeLint.Proofs.Concrete.Conversion
import TreeLint.Proofs.Concrete.Faults
import TreeLint.Proofs.Concrete.Integers
import TreeLint.Proofs.Concrete.Recursion
import TreeLint.Proofs.Concrete.Shape
import TreeLint.Proofs.Discovery.Options
import TreeLint.Proofs.Discovery.Walking
import TreeLint.Proofs.Number.Numeral
import TreeLint.Proofs.Path.Folding
import TreeLint.Proofs.Path.NormalForm
import TreeLint.Proofs.Path.Relative
import TreeLint.Proofs.Pattern.Blame
import TreeLint.Proofs.Pattern.Canonical
import TreeLint.Proofs.Pattern.Canonicalization
import TreeLint.Proofs.Pattern.Cursor
import TreeLint.Proofs.Pattern.Embedding
import TreeLint.Proofs.Pattern.Entailment
import TreeLint.Proofs.Pattern.ErrorPlace
import TreeLint.Proofs.Pattern.Integers
import TreeLint.Proofs.Pattern.Meaning
import TreeLint.Proofs.Pattern.Placement
import TreeLint.Proofs.Pattern.Rewriting
import TreeLint.Proofs.Pattern.Separation
import TreeLint.Proofs.Pattern.Spelling
import TreeLint.Proofs.Report.Agreement
import TreeLint.Proofs.Report.Lines
import TreeLint.Proofs.Rule.Alternatives
import TreeLint.Proofs.Rule.Reached
import TreeLint.Proofs.Rule.Selection
import TreeLint.Proofs.Rule.Validation
import TreeLint.Proofs.Syntax.Draining
import TreeLint.Proofs.Syntax.Lines
import TreeLint.Proofs.Syntax.RoundTrip
import TreeLint.Syntax.TreeJson

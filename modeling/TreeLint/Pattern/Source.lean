import TreeLint.Pattern.Match
import TreeLint.Pattern.Parse

/-!
# Patterns with their text

A rule shows its patterns as they were written, so the text stays with the
compiled pattern.
-/

namespace TreeLint

structure SourcePattern where
  source : String
  pattern : Pattern
deriving Repr, Inhabited

namespace SourcePattern

def compile (source : String) : Except Pattern.Error SourcePattern :=
  (Pattern.compile source).map (⟨source, ·⟩)

def accepts (p : SourcePattern) (n : Node) : Bool :=
  p.pattern.accepts n.slot

end SourcePattern

end TreeLint

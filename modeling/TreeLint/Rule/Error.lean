import TreeLint.Glob.Basic
import TreeLint.Pattern.Token

/-!
# Rule errors

Why rules cannot be built from their definitions or selected by id.
-/

namespace TreeLint

inductive RuleError where
  | pattern (rule : String) (error : Pattern.Error)
  | duplicateId (rule : String)
  | noPatterns (rule : String)
  | invalidGlob (rule glob : String) (cause : Glob.Error)
  | unknownRule (rule : String)
deriving DecidableEq, Repr

namespace RuleError

def rule : RuleError → String
  | .pattern id _ => id
  | .duplicateId id => id
  | .noPatterns id => id
  | .invalidGlob id _ _ => id
  | .unknownRule id => id

def message : RuleError → String
  | .pattern id e =>
      "rule '" ++ id ++ "': invalid pattern `" ++ e.text ++ "` at offset " ++
        Integer.text e.fault.position ++ ": " ++ e.fault.cause.message
  | .duplicateId id => "duplicate rule id '" ++ id ++ "'"
  | .noPatterns id => "rule '" ++ id ++ "' has no patterns"
  | .invalidGlob id glob cause =>
      "rule '" ++ id ++ "': invalid glob `" ++ glob ++ "`: " ++ cause.message
  | .unknownRule id => "unknown rule '" ++ id ++ "'"

end RuleError

end TreeLint

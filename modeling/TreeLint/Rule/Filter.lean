import TreeLint.Rule.Error

/-!
# Path filters

Include and exclude globs of a rule or of a rule file.
-/

namespace TreeLint

/-- Which paths to take: some include glob matches or there is none, and no exclude glob matches. -/
structure PathFilter where
  includes : List Glob
  excludes : List Glob
deriving DecidableEq, Repr

namespace PathFilter

def all : PathFilter :=
  ⟨[], []⟩

def parseGlobs (owner : String) : List String → Except RuleError (List Glob)
  | [] => .ok []
  | text :: rest =>
      match Glob.parse text with
      | .error cause => .error (.invalidGlob owner text cause)
      | .ok g =>
          match parseGlobs owner rest with
          | .error e => .error e
          | .ok gs => .ok (g :: gs)

/--
The set in which globs are matched together.  Building it could fail even though each of
the globs is fine; the assumption is that it never does.
-/
def assembled (globs : List Glob) : Except Glob.Error (List Glob) :=
  .ok globs

def globSet (owner : String) (texts : List String) : Except RuleError (List Glob) :=
  match parseGlobs owner texts with
  | .error e => .error e
  | .ok globs =>
      match assembled globs with
      | .error cause => .error (.invalidGlob owner (", ".intercalate texts) cause)
      | .ok set => .ok set

/-- No set is refused, so only the texts one by one decide. -/
theorem globSet_eq_parseGlobs (owner : String) (texts : List String) :
    globSet owner texts = parseGlobs owner texts := by
  unfold globSet
  cases parseGlobs owner texts <;> rfl

def build (owner : String) (includeTexts excludeTexts : List String) :
    Except RuleError PathFilter :=
  match globSet owner includeTexts with
  | .error e => .error e
  | .ok included =>
      match globSet owner excludeTexts with
      | .error e => .error e
      | .ok excluded => .ok ⟨included, excluded⟩

def globProblem? (owner text : String) : Option RuleError :=
  match Glob.parse text with
  | .error cause => some (.invalidGlob owner text cause)
  | .ok _ => none

def problems (owner : String) (includeTexts excludeTexts : List String) : List RuleError :=
  (includeTexts ++ excludeTexts).filterMap (globProblem? owner)

def admits (f : PathFilter) (path : String) : Bool :=
  (f.includes.isEmpty || f.includes.any (·.accepts path)) && !f.excludes.any (·.accepts path)

end PathFilter

end TreeLint

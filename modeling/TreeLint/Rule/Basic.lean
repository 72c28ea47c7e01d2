import TreeLint.Pattern.Source
import TreeLint.Rule.Definition
import TreeLint.Rule.Filter

/-!
# Rules and rule sets

A rule set is built from definitions as a whole: the first problem stops it.
`RuleSet.problems` lists all problems of the same definitions instead.
-/

namespace TreeLint

structure Rule where
  definition : RuleDefinition
  patterns : List SourcePattern
  filter : PathFilter
deriving Repr

namespace Rule

def id (r : Rule) : String :=
  r.definition.id

def compileTexts (owner : String) : List String → Except RuleError (List SourcePattern)
  | [] => .ok []
  | text :: rest =>
      match SourcePattern.compile text with
      | .error e => .error (.pattern owner e)
      | .ok p =>
          match compileTexts owner rest with
          | .error e => .error e
          | .ok ps => .ok (p :: ps)

def build (d : RuleDefinition) : Except RuleError Rule :=
  let texts := d.pattern.toList
  if texts.isEmpty then .error (.noPatterns d.id)
  else
    match compileTexts d.id texts with
    | .error e => .error e
    | .ok patterns =>
        match PathFilter.build d.id d.includes d.excludes with
        | .error e => .error e
        | .ok filter => .ok ⟨d, patterns, filter⟩

def patternProblem? (owner text : String) : Option RuleError :=
  match SourcePattern.compile text with
  | .error e => some (.pattern owner e)
  | .ok _ => none

def problems (d : RuleDefinition) : List RuleError :=
  let texts := d.pattern.toList
  (if texts.isEmpty then [.noPatterns d.id] else []) ++
    texts.filterMap (patternProblem? d.id) ++ PathFilter.problems d.id d.includes d.excludes

def admits (r : Rule) (path : String) : Bool :=
  r.filter.admits path

def firstMatch? (r : Rule) (n : Node) : Option SourcePattern :=
  r.patterns.find? (·.accepts n)

end Rule

structure RuleSet where
  rules : List Rule
deriving Repr

namespace RuleSet

def buildAfter (seen : List String) : List RuleDefinition → Except RuleError (List Rule)
  | [] => .ok []
  | d :: rest =>
      if seen.contains d.id then .error (.duplicateId d.id)
      else
        match Rule.build d with
        | .error e => .error e
        | .ok rule =>
            match buildAfter (d.id :: seen) rest with
            | .error e => .error e
            | .ok rules => .ok (rule :: rules)

def build (definitions : List RuleDefinition) : Except RuleError RuleSet :=
  (buildAfter [] definitions).map (⟨·⟩)

def problemsAfter (seen : List String) : List RuleDefinition → List RuleError
  | [] => []
  | d :: rest =>
      (if seen.contains d.id then [.duplicateId d.id] else []) ++ Rule.problems d ++
        problemsAfter (d.id :: seen) rest

def problems (definitions : List RuleDefinition) : List RuleError :=
  problemsAfter [] definitions

def get? (s : RuleSet) (id : String) : Option Rule :=
  s.rules.find? (·.id == id)

/-- The rules with the given ids, in the order of the set; every id has to name a rule. -/
def select (s : RuleSet) (ids : List String) : Except RuleError RuleSet :=
  match ids.find? fun id => (s.get? id).isNone with
  | some id => .error (.unknownRule id)
  | none => .ok ⟨s.rules.filter fun r => ids.contains r.id⟩

end RuleSet

end TreeLint

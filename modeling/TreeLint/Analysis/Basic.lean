import TreeLint.Analysis.Walk
import TreeLint.ProjectRoot

/-!
# Analysis

Scripts are registered one after another, failed ones included.  The issues of
the scripts form a stream that can be stopped and taken up again at any point.
-/

namespace TreeLint

/-- A script that was loaded, or the failure to load one. -/
inductive Registration where
  | loaded (script : Script)
  | failed (path : String) (error : ScriptError)
deriving Repr

namespace Registration

/-- The registration of an outcome; a script brings its own path. -/
def ofOutcome (path : String) : Except ScriptError Script → Registration
  | .ok script => .loaded script
  | .error e => .failed path e

def event : Registration → Event
  | .loaded script => .loaded script
  | .failed path e => .failed path e

def script? : Registration → Option Script
  | .loaded script => some script
  | .failed _ _ => none

end Registration

/-- The issues that are still to come: of the script being walked, then of the rest. -/
structure IssueStream where
  rules : RuleSet
  root : ProjectRoot
  remaining : List Registration
  current : Option Walk

namespace IssueStream

def walkOf (rules : RuleSet) (root : ProjectRoot) (script : Script) : Walk :=
  let path := root.relative script.path
  .start script (rules.rules.filter (·.admits path))

def nextScript (rules : RuleSet) (root : ProjectRoot) :
    List Registration → Option Issue × IssueStream
  | [] => (none, ⟨rules, root, [], none⟩)
  | .failed _ _ :: rest => nextScript rules root rest
  | .loaded script :: rest =>
      match (walkOf rules root script).next? with
      | some (issue, walk) => (some issue, ⟨rules, root, rest, some walk⟩)
      | none => nextScript rules root rest

def next (s : IssueStream) : Option Issue × IssueStream :=
  match s.current.bind Walk.next? with
  | some (issue, walk) => (some issue, { s with current := some walk })
  | none => nextScript s.rules s.root s.remaining

/-- Bound on the nodes that the walk of the current script still enters or leaves. -/
def weight (s : IssueStream) : Nat :=
  s.current.elim 0 Walk.weight

/-- Number of rules not yet tried at the current node of the current script. -/
def untried (s : IssueStream) : Nat :=
  s.current.elim 0 Walk.untried

theorem nextScript_remaining {rules : RuleSet} {root : ProjectRoot} {rs : List Registration}
    {issue : Issue} {s : IssueStream} (h : nextScript rules root rs = (some issue, s)) :
    s.remaining.length < rs.length := by
  induction rs with
  | nil =>
      simp [nextScript] at h
  | cons r rs ih =>
      cases r with
      | failed path e =>
          have := ih (by simpa [nextScript] using h)
          simp
          omega
      | loaded script =>
          unfold nextScript at h
          split at h
          · simp only [Prod.mk.injEq] at h
            simp [← h.2]
          · have := ih h
            simp
            omega

theorem next_progress {s s' : IssueStream} {issue : Issue} (h : s.next = (some issue, s')) :
    s'.remaining.length < s.remaining.length ∨
      (s'.remaining.length = s.remaining.length ∧
        (s'.weight < s.weight ∨ (s'.weight = s.weight ∧ s'.untried < s.untried))) := by
  unfold next at h
  split at h
  · rename_i issue' walk hwalk
    simp only [Prod.mk.injEq] at h
    obtain ⟨_, rfl⟩ := h
    obtain ⟨w, hw, hnext⟩ := Option.bind_eq_some_iff.1 hwalk
    have hstep := Walk.next?_progress hnext
    refine Or.inr ⟨rfl, ?_⟩
    simpa [weight, untried, hw] using hstep
  · exact Or.inl (nextScript_remaining h)

/-- At most `k` issues from the front of the stream. -/
def take : Nat → IssueStream → List Issue
  | 0, _ => []
  | k + 1, s =>
      match s.next with
      | (some issue, rest) => issue :: take k rest
      | (none, _) => []

def toList (s : IssueStream) : List Issue :=
  match h : s.next with
  | (some issue, rest) =>
      have := next_progress h
      issue :: toList rest
  | (none, _) => []
termination_by (s.remaining.length, s.weight, s.untried)
decreasing_by
  simp only [Prod.lex_def]
  omega

end IssueStream

/--
Rules, a project root, and what was registered so far.  The latest registration
stands apart from the earlier ones, since it is the one that was just reported.
-/
structure Analysis where
  rules : RuleSet
  root : ProjectRoot
  earlier : Array Registration
  latest : Option Registration

namespace Analysis

def start (rules : RuleSet) (root : ProjectRoot) : Analysis :=
  ⟨rules, root, #[], none⟩

def register (a : Analysis) (path : String) (outcome : Except ScriptError Script) :
    Analysis × Event :=
  let r := Registration.ofOutcome path outcome
  let earlier :=
    match a.latest with
    | some previous => a.earlier.push previous
    | none => a.earlier
  ({ a with earlier := earlier, latest := some r }, r.event)

def registrations (a : Analysis) : List Registration :=
  a.earlier.toList ++ a.latest.toList

@[simp] theorem registrations_start (rules : RuleSet) (root : ProjectRoot) :
    (start rules root).registrations = [] := rfl

/-- A registration goes behind those before it, and none of them changes. -/
theorem registrations_register (a : Analysis) (path : String)
    (outcome : Except ScriptError Script) :
    (a.register path outcome).1.registrations =
      a.registrations ++ [Registration.ofOutcome path outcome] := by
  cases hlatest : a.latest <;> simp [register, registrations, hlatest]

def scripts (a : Analysis) : List Script :=
  a.registrations.filterMap Registration.script?

def run (a : Analysis) : IssueStream :=
  ⟨a.rules, a.root, a.registrations, none⟩

def issues (a : Analysis) : List Issue :=
  a.run.toList

def events (a : Analysis) : List Event :=
  a.registrations.map Registration.event ++ a.issues.map Event.found

end Analysis

end TreeLint

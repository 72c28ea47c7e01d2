import TreeLint.Analysis.Basic

/-!
# The events of a run

A run registers the outcomes of loading, one after another, and then searches
the loaded scripts.  Every report is made from the events of the run in order.
-/

namespace TreeLint

namespace Analysis

/-- Register several outcomes in order; the events are those of the registrations. -/
def registerAll (a : Analysis) :
    List (String × Except ScriptError Script) → Analysis × List Event
  | [] => (a, [])
  | (path, outcome) :: rest =>
      let (a, event) := a.register path outcome
      let (a, events) := a.registerAll rest
      (a, event :: events)

@[simp] theorem registerAll_rules (a : Analysis)
    (outcomes : List (String × Except ScriptError Script)) :
    (a.registerAll outcomes).1.rules = a.rules := by
  induction outcomes generalizing a with
  | nil => rfl
  | cons o rest ih => exact ih (a.register o.1 o.2).1

@[simp] theorem registerAll_root (a : Analysis)
    (outcomes : List (String × Except ScriptError Script)) :
    (a.registerAll outcomes).1.root = a.root := by
  induction outcomes generalizing a with
  | nil => rfl
  | cons o rest ih => exact ih (a.register o.1 o.2).1

/-- The outcomes stand behind what was registered before, in their order. -/
theorem registrations_registerAll (a : Analysis)
    (outcomes : List (String × Except ScriptError Script)) :
    (a.registerAll outcomes).1.registrations =
      a.registrations ++ outcomes.map fun o => Registration.ofOutcome o.1 o.2 := by
  induction outcomes generalizing a with
  | nil => simp [registerAll]
  | cons o rest ih =>
      have hrest := ih (a.register o.1 o.2).1
      rw [registrations_register] at hrest
      simpa [registerAll] using hrest

def runEvents (a : Analysis) (outcomes : List (String × Except ScriptError Script)) :
    List Event :=
  let (a, events) := a.registerAll outcomes
  events ++ a.issues.map .found

end Analysis

end TreeLint

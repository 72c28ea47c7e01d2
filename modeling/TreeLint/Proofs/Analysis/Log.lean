import TreeLint.Proofs.Analysis.Schedule

/-!
# The log of registrations

What was registered is a log, and every call puts one entry behind the others.
The issues of a run are those of the loaded scripts, one script after another, so
a longer log only adds issues and a failure neither adds nor removes any.
-/

namespace TreeLint

def registered (rules : RuleSet) (root : ProjectRoot)
    (outcomes : List (String × Except ScriptError Script)) : Analysis :=
  ((Analysis.start rules root).registerAll outcomes).1

/-- How an outcome is reported: a script under its own path, a failure under the given one. -/
def loadEvent : String × Except ScriptError Script → Event
  | (_, .ok script) => .loaded script
  | (path, .error e) => .failed path e

/-- The outcomes without the failures that stand at the chosen positions. -/
def withoutFailures (chosen : Nat → Bool) (outcomes : List (String × Except ScriptError Script)) :
    List (String × Except ScriptError Script) :=
  (outcomes.zipIdx.filter fun o => o.1.2.isOk || !chosen o.2).map Prod.fst

variable {rules : RuleSet} {root : ProjectRoot}

/-! ## Entries -/

theorem Analysis.registerAll_append (a : Analysis)
    (xs ys : List (String × Except ScriptError Script)) :
    (a.registerAll (xs ++ ys)).1 = ((a.registerAll xs).1.registerAll ys).1 := by
  induction xs generalizing a with
  | nil => rfl
  | cons o xs ih => exact ih (a.register o.1 o.2).1

theorem registered_append (xs ys : List (String × Except ScriptError Script)) :
    registered rules root (xs ++ ys) = ((registered rules root xs).registerAll ys).1 :=
  Analysis.registerAll_append _ xs ys

theorem registrations_registered (outcomes : List (String × Except ScriptError Script)) :
    (registered rules root outcomes).registrations =
      outcomes.map fun o => Registration.ofOutcome o.1 o.2 := by
  rw [registered, Analysis.registrations_registerAll, Analysis.registrations_start,
    List.nil_append]

theorem event_ofOutcome (o : String × Except ScriptError Script) :
    (Registration.ofOutcome o.1 o.2).event = loadEvent o := by
  obtain ⟨path, outcome⟩ := o
  cases outcome <;> rfl

theorem register_event (a : Analysis) (o : String × Except ScriptError Script) :
    (a.register o.1 o.2).2 = loadEvent o :=
  event_ofOutcome o

theorem registerAll_events (a : Analysis) (outcomes : List (String × Except ScriptError Script)) :
    (a.registerAll outcomes).2 = outcomes.map loadEvent := by
  induction outcomes generalizing a with
  | nil => rfl
  | cons o rest ih =>
      have hrest := ih (a.register o.1 o.2).1
      rw [List.map_cons, ← hrest, ← register_event a o]
      rfl

theorem events_registered (outcomes : List (String × Except ScriptError Script)) :
    (registered rules root outcomes).events =
      outcomes.map loadEvent ++ (registered rules root outcomes).run.toList.map .found := by
  rw [Analysis.events, registrations_registered, List.map_map]
  simp only [Function.comp_def, event_ofOutcome]
  rfl

theorem runEvents_start (outcomes : List (String × Except ScriptError Script)) :
    (Analysis.start rules root).runEvents outcomes =
      outcomes.map loadEvent ++ (registered rules root outcomes).run.toList.map .found := by
  rw [← registerAll_events (Analysis.start rules root)]
  rfl

def Event.issue? : Event → Option Issue
  | .found issue => some issue
  | .loaded _ => none
  | .failed _ _ => none

/-- The events of a run report the issues of the run, and loading reports none. -/
theorem issues_runEvents (outcomes : List (String × Except ScriptError Script)) :
    ((Analysis.start rules root).runEvents outcomes).filterMap Event.issue? =
      (registered rules root outcomes).run.toList := by
  have hload : (outcomes.map loadEvent).filterMap Event.issue? = [] := by
    rw [List.filterMap_map, List.filterMap_eq_nil_iff]
    rintro ⟨path, _ | script⟩ - <;> rfl
  have hfound : Event.issue? ∘ Event.found = some := rfl
  rw [runEvents_start, List.filterMap_append, hload, List.nil_append, List.filterMap_map, hfound,
    List.filterMap_some]

/-! ## Issues -/

theorem issues_registered (outcomes : List (String × Except ScriptError Script)) :
    (registered rules root outcomes).run.toList =
      (schedule rules root (outcomes.filterMap (·.2.toOption))).filterMap Test.issue? := by
  rw [IssueStream.toList_eq, IssueStream.pendingIssues, registered, Analysis.run_registerAll]
  rfl

theorem issues_append (xs ys : List (String × Except ScriptError Script)) :
    (registered rules root (xs ++ ys)).run.toList =
      (registered rules root xs).run.toList ++ (registered rules root ys).run.toList := by
  simp only [issues_registered, List.filterMap_append, schedule, List.flatMap_append]

/-- Failures hold no script, so the same scripts are left. -/
theorem scripts_withoutFailures (chosen : Nat → Bool)
    (outcomes : List (String × Except ScriptError Script)) :
    (withoutFailures chosen outcomes).filterMap (·.2.toOption) =
      outcomes.filterMap (·.2.toOption) := by
  have hkept : ∀ o : (String × Except ScriptError Script) × Nat,
      (if (o.1.2.isOk || !chosen o.2) = true then o.1.2.toOption else none) = o.1.2.toOption := by
    rintro ⟨⟨path, outcome⟩, i⟩
    cases outcome with
    | error e => cases chosen i <;> rfl
    | ok script => rfl
  rw [withoutFailures, List.filterMap_map, List.filterMap_filter]
  simp only [Function.comp_def, hkept]
  conv_rhs => rw [← List.zipIdx_map_fst 0 outcomes, List.filterMap_map]
  rfl

/-! ## The log and its runs -/

/--
What was registered, read in order, is the sequence of outcomes, and every call
reports what the events show at its place.  The runs of two sequences are put
together when the sequences are, and failures can be left out.
-/
theorem registration_log (rules : RuleSet) (root : ProjectRoot) :
    (∀ outcomes,
      let a := registered rules root outcomes
      a.earlier.toList ++ a.latest.toList =
          outcomes.map (fun o => Registration.ofOutcome o.1 o.2) ∧
        a.events = outcomes.map loadEvent ++ a.run.toList.map .found) ∧
      (∀ before path outcome after,
        let reported := ((registered rules root before).register path outcome).2
        reported = loadEvent (path, outcome) ∧
          (registered rules root (before ++ (path, outcome) :: after)).events[before.length]? =
            some reported) ∧
      (∀ xs ys,
        registered rules root (xs ++ ys) = ((registered rules root xs).registerAll ys).1 ∧
          (registered rules root (xs ++ ys)).run.toList =
            (registered rules root xs).run.toList ++ (registered rules root ys).run.toList) ∧
      ∀ chosen outcomes,
        (registered rules root (withoutFailures chosen outcomes)).run.toList =
          (registered rules root outcomes).run.toList := by
  refine ⟨fun outcomes => ?_, fun before path outcome after => ?_, fun xs ys => ?_,
    fun chosen outcomes => ?_⟩
  · exact ⟨registrations_registered outcomes, events_registered outcomes⟩
  · have hreported := register_event (registered rules root before) (path, outcome)
    refine ⟨hreported, ?_⟩
    rw [events_registered, hreported]
    simp
  · exact ⟨registered_append xs ys, issues_append xs ys⟩
  · rw [issues_registered, issues_registered, scripts_withoutFailures]

end TreeLint

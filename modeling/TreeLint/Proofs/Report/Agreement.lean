import TreeLint.CommandLine.Basic
import TreeLint.Proofs.Analysis.Log

/-!
# Reports of one run

The events of a run reach a report while scripts are still being registered.  They are
the events that the analysis lists once all outcomes are registered: first the
outcomes, then the issues.  The text report and the document are both made from the
failures and the issues among them, so entry by entry they tell the same.
-/

namespace TreeLint

def failureOf? : String × Except ScriptError Script → Option (String × ScriptError)
  | (path, .error e) => some (path, e)
  | (_, .ok _) => none

def Event.failure? : Event → Option (String × ScriptError)
  | .failed path e => some (path, e)
  | .loaded _ => none
  | .found _ => none

/-- An entry of a document tells script, rule, message and start of an issue. -/
structure Report.TellsIssue (i : Issue) (entry : Json) : Prop where
  script : entry.get? "script" = some (.string i.script.path)
  rule : (entry.get? "rule").bind (·.get? "id") = some (.string i.rule.id)
  message : (entry.get? "rule").bind (·.get? "message") = some (.string i.rule.definition.message)
  start : (entry.get? "location").bind (·.get? "start") =
    some (.array [.integer i.node.span.start.oneBased.1, .integer i.node.span.start.oneBased.2])

variable {rules : RuleSet} {root : ProjectRoot}

/-! ## The events of a run -/

theorem runEvents_eq_events (outcomes : List (String × Except ScriptError Script)) :
    (Analysis.start rules root).runEvents outcomes = (registered rules root outcomes).events := by
  rw [runEvents_start, events_registered]

theorem failure?_loadEvent (o : String × Except ScriptError Script) :
    (loadEvent o).failure? = failureOf? o := by
  obtain ⟨path, outcome⟩ := o
  cases outcome <;> rfl

theorem failures_runEvents (outcomes : List (String × Except ScriptError Script)) :
    ((Analysis.start rules root).runEvents outcomes).filterMap Event.failure? =
      outcomes.filterMap failureOf? := by
  have hload : Event.failure? ∘ loadEvent = failureOf? := funext failure?_loadEvent
  have hfound : ((registered rules root outcomes).run.toList.map Event.found).filterMap
      Event.failure? = [] := by
    rw [List.filterMap_map, List.filterMap_eq_nil_iff]
    intro issue _
    rfl
  rw [runEvents_start, List.filterMap_append, hfound, List.append_nil, List.filterMap_map, hload]

/-! ## The text report -/

theorem record?_loadEvent (o : String × Except ScriptError Script) :
    (loadEvent o).record? = (failureOf? o).map fun f => f.1 ++ "\terror: " ++ f.2.message := by
  obtain ⟨path, outcome⟩ := o
  cases outcome <;> rfl

theorem textReport_append (xs ys : List Event) :
    textReport (xs ++ ys) = textReport xs ++ textReport ys := by
  rw [textReport, List.filterMap_append, List.map_append, String.join_append]
  rfl

theorem textReport_outcomes (outcomes : List (String × Except ScriptError Script)) :
    textReport (outcomes.map loadEvent) =
      String.join ((outcomes.filterMap failureOf?).map fun f =>
        f.1 ++ "\terror: " ++ f.2.message ++ "\n") := by
  have hrecord : Event.record? ∘ loadEvent =
      fun o => (failureOf? o).map fun f => f.1 ++ "\terror: " ++ f.2.message :=
    funext record?_loadEvent
  rw [textReport, List.filterMap_map, hrecord, ← List.map_filterMap, List.map_map]
  rfl

theorem textReport_found (issues : List Issue) :
    textReport (issues.map .found) = String.join (issues.map fun i => i.record ++ "\n") := by
  have hrecord : Event.record? ∘ Event.found = some ∘ Issue.record := rfl
  rw [textReport, List.filterMap_map, hrecord, List.filterMap_eq_map, List.map_map]
  rfl

/-! ## The document -/

theorem Report.foldl_add (events : List Event) (r : Report) :
    events.foldl Report.add r =
      { issues := r.issues ++ (events.filterMap Event.issue?).map IssueRecord.ofIssue
        failures := r.failures ++ (events.filterMap Event.failure?).map fun f =>
          ⟨f.1, f.2.message⟩ } := by
  induction events generalizing r with
  | nil => simp
  | cons e rest ih =>
      rw [List.foldl_cons, ih]
      cases e <;> simp [Report.add, List.filterMap_cons, Event.issue?, Event.failure?]

theorem Report.ofEvents_eq (events : List Event) :
    Report.ofEvents events =
      { issues := (events.filterMap Event.issue?).map IssueRecord.ofIssue
        failures := (events.filterMap Event.failure?).map fun f => ⟨f.1, f.2.message⟩ } := by
  rw [Report.ofEvents, Report.foldl_add]
  rfl

theorem Report.tellsIssue_ofIssue (i : Issue) :
    Report.TellsIssue i (IssueRecord.ofIssue i).toJson := by
  constructor <;> simp [IssueRecord.toJson, IssueRecord.ofIssue, Json.get?, List.lookup_cons, place]

/-! ## Both reports -/

/--
A run reports the events that the analysis lists when all outcomes are registered.
Its text report has one record per failure, in the order of registration, and then one
per issue, in the order of the run; the arrays of its document hold the same failures
and the same issues.
-/
theorem reports_show_one_run (rules : RuleSet) (root : ProjectRoot)
    (outcomes : List (String × Except ScriptError Script)) :
    let analysis := registered rules root outcomes
    let events := (Analysis.start rules root).runEvents outcomes
    let failures := outcomes.filterMap failureOf?
    let issues := analysis.run.toList
    events = analysis.events ∧
      events.filterMap Event.failure? = failures ∧
      events.filterMap Event.issue? = issues ∧
      CommandLine.report .text events =
        String.join (failures.map fun f => f.1 ++ "\terror: " ++ f.2.message ++ "\n") ++
          String.join (issues.map fun i =>
            i.script.path ++ ":" ++ Integer.text i.node.span.start.oneBased.1 ++ ":" ++
              Integer.text i.node.span.start.oneBased.2 ++ "\t" ++ i.sourceLine ++ "\t" ++
              i.rule.definition.message ++ " (" ++ i.rule.id ++ ")" ++ "\n") ∧
      ∃ entries errors : List Json,
        CommandLine.report .json events =
            (Json.object [("issues", .array entries), ("errors", .array errors)]).pretty ++ "\n" ∧
          errors = failures.map (fun f =>
            .object [("path", .string f.1), ("message", .string f.2.message)]) ∧
          List.Forall₂ Report.TellsIssue issues entries := by
  intro analysis events failures issues
  have hfailures : events.filterMap Event.failure? = failures := failures_runEvents outcomes
  have hissues : events.filterMap Event.issue? = issues := issues_runEvents outcomes
  refine ⟨runEvents_eq_events outcomes, hfailures, hissues, ?_, ?_⟩
  · have hevents : events = outcomes.map loadEvent ++ issues.map .found := runEvents_start outcomes
    rw [CommandLine.report, hevents, textReport_append, textReport_outcomes, textReport_found]
    rfl
  · refine ⟨issues.map fun i => (Report.IssueRecord.ofIssue i).toJson, _, ?_, rfl, ?_⟩
    · rw [CommandLine.report, Report.document, Report.toJson, Report.ofEvents_eq, hfailures,
        hissues, List.map_map, List.map_map]
      rfl
    · rw [List.forall₂_map_right_iff, List.forall₂_same]
      intro i _
      exact Report.tellsIssue_ofIssue i

end TreeLint

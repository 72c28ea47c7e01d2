import TreeLint.CommandLine.Basic
import TreeLint.Proofs.FileSystem.Below
import TreeLint.Proofs.Rule.Validation

/-!
# Checking and testing a rule file

A check builds the rules and the filter of a file and stops at the first problem; a
test lists all problems.  The problems of the file decide both, so the two commands
agree on whether there is one, and the message of a failed check is the first line of
the test's report.
-/

namespace TreeLint

namespace CommandLine

def eventsOf (s : Surroundings) (vs : Values) (path : String) (file : RuleFile) :
    Except RuleError (List Event) :=
  chooseRules file vs.rules >>= fun rules =>
    PathFilter.build fileOwner [] file.excludes >>= fun filter =>
      .ok (checkEvents s vs (ProjectRoot.ofPath s.files (rootPath vs path)) rules filter)

/-- The arguments ask for a command that gets as far as its rule file, which loads. -/
structure Loads (s : Surroundings) (args : List String) (verb : Verb) (vs : Values)
    (path : String) (file : RuleFile) : Prop where
  arguments : readOuter s.logVariable.isSome {} args = .ok (verb, vs)
  log : openLog s vs = .ok ()
  ruleFile : loadRules s vs = .ok (path, file)

variable {w : Wording} {s : Surroundings} {args : List String} {vs : Values} {path : String}
  {file : RuleFile}

/-! ## What each command leaves behind -/

theorem check_eq (h : loadRules s vs = .ok (path, file)) :
    check s vs =
      match eventsOf s vs path file with
      | .error e => .error (.rule e)
      | .ok events => .ok (report (vs.layout.getD .text) events) := by
  simp only [check, h, eventsOf]
  cases chooseRules file vs.rules with
  | error e => rfl
  | ok rules => cases PathFilter.build fileOwner [] file.excludes <;> rfl

theorem Loads.runVerb_check (h : Loads s args .check vs path file) :
    runVerb s .check vs =
      match eventsOf s vs path file with
      | .error e => .error (.rule e)
      | .ok events => .ok (true, report (vs.layout.getD .text) events) := by
  rw [runVerb, h.log]
  simp only [check_eq h.ruleFile]
  cases eventsOf s vs path file <;> rfl

theorem Loads.run_check (h : Loads s args .check vs path file) :
    run w s args =
      match eventsOf s vs path file with
      | .error e => ⟨false, "", "error: " ++ e.message ++ "\n"⟩
      | .ok events => ⟨true, report (vs.layout.getD .text) events, ""⟩ := by
  rw [run, h.arguments]
  simp only [h.runVerb_check]
  cases eventsOf s vs path file <;> rfl

theorem Loads.run_test (h : Loads s args .test vs path file) :
    run w s args =
      ⟨(fileProblems file).isEmpty, problemListing file.rules.length (fileProblems file), ""⟩ := by
  rw [run, h.arguments]
  simp only [runVerb, h.log, test, h.ruleFile]

/-! ## The problems decide -/

/-- A check with all rules stops at the first problem of the file. -/
theorem eventsOf_stopsAt (s : Surroundings) (path : String) (file : RuleFile)
    (hrules : vs.rules = []) : StopsAt (eventsOf s vs path file) (fileProblems file) := by
  have hchoose : chooseRules file vs.rules = RuleSet.build file.rules := by
    rw [chooseRules, hrules]
    cases RuleSet.build file.rules <;> rfl
  have hbind := (RuleSet.build_stopsAt file.rules).bind fun rules =>
    (PathFilter.build_stopsAt fileOwner [] file.excludes).bind fun filter =>
      .ok (checkEvents s vs (ProjectRoot.ofPath s.files (rootPath vs path)) rules filter)
  rw [List.append_nil] at hbind
  rw [eventsOf, hchoose, fileProblems]
  exact hbind

theorem problemListing_eq (checked : Nat) (problems : List RuleError) :
    problemListing checked problems =
      String.join (problems.map fun e => "error: " ++ e.message ++ "\n") ++
        (counted checked "rule" ++ " checked, " ++ counted problems.length "error" ++ "\n") := by
  have hlines : problems.map (endLine ∘ RuleError.line) =
      problems.map fun e => "error: " ++ e.message ++ "\n" := rfl
  simp [problemListing, hlines, endLine]

/--
A check of a rule file that loads fails by a rule error exactly when the test of the
file fails; it then writes only the first problem, with which the report of the test
begins.  Without a problem the check succeeds, whatever its report tells.
-/
theorem check_agrees_with_test {s' : Surroundings} {args' : List String} {vs' : Values}
    {path' : String} (hcheck : Loads s args .check vs path file)
    (htest : Loads s' args' .test vs' path' file) (hrules : vs.rules = []) :
    let problems := RuleSet.problems file.rules ++ PathFilter.problems fileOwner [] file.excludes
    let checked := run w s args
    let tested := run w s' args'
    ((∃ e, runVerb s .check vs = .error (.rule e)) ↔ tested.success = false) ∧
      checked.success = tested.success ∧
      tested.out =
        String.join (problems.map fun e => "error: " ++ e.message ++ "\n") ++
          (counted file.rules.length "rule" ++ " checked, " ++
            counted problems.length "error" ++ "\n") ∧
      tested.err = "" ∧
      (tested.success = false →
        ∃ e more, problems.head? = some e ∧
          checked = ⟨false, "", "error: " ++ e.message ++ "\n"⟩ ∧
          tested.out = checked.err ++ more) ∧
      (problems = [] →
        ∃ events, eventsOf s vs path file = .ok events ∧
          checked = ⟨true, report (vs.layout.getD .text) events, ""⟩) := by
  intro problems checked tested
  have hstops : StopsAt (eventsOf s vs path file) problems := eventsOf_stopsAt s path file hrules
  have hchecked : checked = _ := hcheck.run_check
  have hverb := hcheck.runVerb_check
  have htested : tested = ⟨problems.isEmpty, problemListing file.rules.length problems, ""⟩ :=
    htest.run_test
  rw [problemListing_eq] at htested
  clear_value problems
  cases problems with
  | nil =>
      obtain ⟨events, hevents⟩ := hstops
      rw [hevents] at hchecked hverb
      rw [hchecked, htested, hverb]
      exact ⟨by simp, rfl, rfl, rfl, by simp, fun _ => ⟨events, hevents, rfl⟩⟩
  | cons e rest =>
      have hfail : eventsOf s vs path file = .error e := hstops
      have hfirst : ∃ more, tested.out = "error: " ++ e.message ++ "\n" ++ more := by
        rw [htested, List.map_cons, String.join_cons, String.append_assoc]
        exact ⟨_, rfl⟩
      obtain ⟨more, hmore⟩ := hfirst
      rw [hfail] at hchecked hverb
      rw [htested] at hmore
      rw [hchecked, htested, hverb]
      exact ⟨by simp, rfl, rfl, rfl, fun _ => ⟨e, more, rfl, rfl, hmore⟩, by simp⟩

/-! ## A file with problems of every kind -/

/-- A rule without patterns, an id used twice, a text that is no pattern and one that is no glob. -/
def troubledFile : RuleFile where
  rules :=
    [{ id := "a", pattern := .many [], message := "m" },
      { id := "a", pattern := .one "(", message := "m" }]
  excludes := ["["]

def troubledText : String :=
  "exclude: ['[']\nrules:\n- id: a\n  pattern: []\n  message: m\n" ++
    "- id: a\n  pattern: '('\n  message: m\n"

/-- A directory with `troubledFile` in it, and no parser for any language. -/
def troubled : Surroundings where
  files :=
    { top := .directory .whole [("quarry.yml", .file (.ok troubledText.toUTF8))]
      workingDirectory := [] }
  parser := fun language _ => .error (.parse language "no grammar")

theorem entry?_troubled :
    troubled.files.entry? "./quarry.yml" = some (.file (.ok troubledText.toUTF8)) :=
  FileSystem.entry?_of_names ["."] ["quarry.yml"] (by decide +kernel) (by decide +kernel)
    (by decide +kernel) (by decide +kernel) rfl (by simp) rfl

theorem loadRules_troubled (vs : Values) (hconfig : vs.config = none) :
    loadRules troubled vs = .ok ("./quarry.yml", troubledFile) := by
  have hname : Path.join "." "quarry.yml" = "./quarry.yml" := by decide +kernel
  have hlocate : RuleFile.locate troubled.files none "." = .ok "./quarry.yml" := by
    have hfile : troubled.files.isFile "./quarry.yml" = true := by
      rw [FileSystem.isFile, entry?_troubled]
      rfl
    simp [RuleFile.locate, RuleFile.candidates, RuleFile.defaultNames, hname, hfile]
  have hread : troubled.files.readText "./quarry.yml" = .ok troubledText := by
    have hutf8 : String.fromUTF8? troubledText.toUTF8 = some troubledText :=
      dif_pos troubledText.isValidUTF8
    simp only [FileSystem.readText, entry?_troubled, hutf8]
  have htext : RuleFile.ofText troubledText "./quarry.yml" troubled.decoder = .ok troubledFile := by
    have hblank : troubledText.toList.all Text.isBlank = false := by decide +kernel
    have hyaml : troubled.decoder troubledText = some troubledFile := by decide +kernel
    simp [RuleFile.ofText, hblank, hyaml]
  simp only [loadRules, hconfig, hlocate, RuleFile.load, hread, htext]

theorem check_troubled :
    let w : Wording := ⟨"", fun _ => "", ""⟩
    let checked := run w troubled ["check", "src"]
    let tested := run w troubled ["test"]
    checked = ⟨false, "", "error: rule 'a' has no patterns\n"⟩ ∧
      tested.success = false ∧ ∃ more, tested.out = checked.err ++ more := by
  intro w checked tested
  have hcheck : Loads troubled ["check", "src"] .check { operands := ["src"] } "./quarry.yml"
      troubledFile := ⟨rfl, rfl, loadRules_troubled _ rfl⟩
  have htest : Loads troubled ["test"] .test {} "./quarry.yml" troubledFile :=
    ⟨rfl, rfl, loadRules_troubled _ rfl⟩
  obtain ⟨-, -, -, -, hfails, -⟩ := check_agrees_with_test (w := w) hcheck htest rfl
  have hfailed : tested.success = false := by
    rw [show tested = _ from htest.run_test]
    decide +kernel
  obtain ⟨e, more, he, hchecked, hmore⟩ := hfails hfailed
  have hfirst : e = .noPatterns "a" := by
    have hproblems : (fileProblems troubledFile).head? = some (.noPatterns "a") := by
      decide +kernel
    exact Option.some.inj (he.symm.trans hproblems)
  rw [hfirst] at hchecked
  exact ⟨hchecked, hfailed, more, hmore⟩

end CommandLine

end TreeLint

import TreeLint.Proofs.Analysis.Log
import TreeLint.Proofs.CommandLine.Check
import TreeLint.Proofs.Data.Except
import TreeLint.Proofs.Discovery.Filtering
import TreeLint.Proofs.Path.Relative

/-!
# Exclusion for a file and for its rules

Globs that a rule file excludes keep files from being loaded.  Written behind the
exclude globs of every rule instead, they let the files be loaded and keep the rules
from them.  Either way a check finds the same issues.
-/

namespace TreeLint

/-! ## Rules with more exclude globs -/

def RuleDefinition.excluding (texts : List String) (d : RuleDefinition) : RuleDefinition :=
  { d with excludes := d.excludes ++ texts }

/-- The rule file with its exclude globs written behind those of every rule instead. -/
def RuleFile.distributed (file : RuleFile) : RuleFile where
  rules := file.rules.map (·.excluding file.excludes)
  excludes := []

def PathFilter.excluding (globs : List Glob) (f : PathFilter) : PathFilter :=
  { f with excludes := f.excludes ++ globs }

def PathFilter.barring (globs : List Glob) : PathFilter :=
  ⟨[], globs⟩

def Rule.excluding (texts : List String) (globs : List Glob) (r : Rule) : Rule where
  definition := r.definition.excluding texts
  patterns := r.patterns
  filter := r.filter.excluding globs

def RuleSet.excluding (texts : List String) (globs : List Glob) (rules : RuleSet) : RuleSet :=
  ⟨rules.rules.map (·.excluding texts globs)⟩

variable {texts : List String} {globs : List Glob}

theorem PathFilter.admits_excluding (f : PathFilter) (path : String) :
    (f.excluding globs).admits path =
      (f.admits path && (PathFilter.barring globs).admits path) := by
  simp [PathFilter.excluding, PathFilter.barring, PathFilter.admits, List.any_append,
    Bool.and_assoc]

theorem PathFilter.exists_globs (h : ∀ text ∈ texts, ∃ g, Glob.parse text = .ok g) :
    ∃ globs, ∀ owner, parseGlobs owner texts = .ok globs := by
  induction texts with
  | nil => exact ⟨[], fun _ => rfl⟩
  | cons text rest ih =>
      obtain ⟨g, hg⟩ := h text List.mem_cons_self
      obtain ⟨gs, hgs⟩ := ih fun text' hmem => h text' (List.mem_cons_of_mem text hmem)
      exact ⟨g :: gs, fun owner => by simp only [parseGlobs, hg, hgs]⟩

theorem PathFilter.parseGlobs_append (hglobs : ∀ owner, parseGlobs owner texts = .ok globs)
    (owner : String) (own : List String) :
    parseGlobs owner (own ++ texts) = (parseGlobs owner own).map (· ++ globs) := by
  induction own with
  | nil => exact hglobs owner
  | cons text rest ih =>
      rw [List.cons_append, parseGlobs, parseGlobs, ih]
      cases Glob.parse text with
      | error cause => rfl
      | ok g => cases parseGlobs owner rest <;> rfl

theorem PathFilter.build_excluding (hglobs : ∀ owner, parseGlobs owner texts = .ok globs)
    (owner : String) (includes excludes : List String) :
    build owner includes (excludes ++ texts) =
      (build owner includes excludes).map (excluding globs) := by
  simp only [build, globSet_eq_parseGlobs, parseGlobs_append hglobs]
  cases parseGlobs owner includes with
  | error e => rfl
  | ok included => cases parseGlobs owner excludes <;> rfl

theorem Rule.build_excluding (hglobs : ∀ owner, PathFilter.parseGlobs owner texts = .ok globs)
    (d : RuleDefinition) :
    Rule.build (d.excluding texts) = (Rule.build d).map (Rule.excluding texts globs) := by
  have hfilter := PathFilter.build_excluding hglobs d.id d.includes d.excludes
  simp only [build, RuleDefinition.excluding, hfilter]
  by_cases hempty : d.pattern.toList.isEmpty = true
  · rw [if_pos hempty, if_pos hempty]
    rfl
  · rw [if_neg hempty, if_neg hempty]
    cases compileTexts d.id d.pattern.toList with
    | error e => rfl
    | ok patterns => cases PathFilter.build d.id d.includes d.excludes <;> rfl

theorem RuleSet.buildAfter_excluding
    (hglobs : ∀ owner, PathFilter.parseGlobs owner texts = .ok globs) (seen : List String)
    (ds : List RuleDefinition) :
    buildAfter seen (ds.map (·.excluding texts)) =
      (buildAfter seen ds).map (List.map (Rule.excluding texts globs)) := by
  induction ds generalizing seen with
  | nil => rfl
  | cons d rest ih =>
      have hid : (d.excluding texts).id = d.id := rfl
      rw [List.map_cons, buildAfter, buildAfter, hid, Rule.build_excluding hglobs, ih]
      by_cases hseen : seen.contains d.id = true
      · rw [if_pos hseen, if_pos hseen]
        rfl
      · rw [if_neg hseen, if_neg hseen]
        cases Rule.build d with
        | error e => rfl
        | ok r => cases buildAfter (d.id :: seen) rest <;> rfl

theorem RuleSet.build_excluding
    (hglobs : ∀ owner, PathFilter.parseGlobs owner texts = .ok globs)
    (ds : List RuleDefinition) :
    build (ds.map (·.excluding texts)) = (build ds).map (RuleSet.excluding texts globs) := by
  rw [build, build, buildAfter_excluding hglobs]
  cases buildAfter [] ds <;> rfl

/-- The ids are the same, so the same rules are selected. -/
theorem RuleSet.select_excluding (rules : RuleSet) (ids : List String) :
    (rules.excluding texts globs).select ids =
      (rules.select ids).map (RuleSet.excluding texts globs) := by
  have hget : ∀ id, ((rules.excluding texts globs).get? id).isNone = (rules.get? id).isNone := by
    intro id
    rw [get?, get?, excluding, List.find?_map, Option.isNone_map]
    rfl
  simp only [select, hget]
  cases ids.find? fun id => (rules.get? id).isNone with
  | some id => rfl
  | none =>
      simp only [excluding, List.filter_map]
      rfl

/-! ## Runs with more exclude globs -/

def Test.excluding (texts : List String) (globs : List Glob) (t : Test) : Test :=
  { t with rule := t.rule.excluding texts globs }

def Issue.excluding (texts : List String) (globs : List Glob) (i : Issue) : Issue :=
  { i with rule := i.rule.excluding texts globs }

variable {root : ProjectRoot}

theorem Test.issue?_excluding (t : Test) :
    (t.excluding texts globs).issue? = t.issue?.map (Issue.excluding texts globs) := by
  rw [issue?, issue?, Option.map_map]
  rfl

theorem Rule.admits_excluding (r : Rule) (path : String) :
    (r.excluding texts globs).admits path =
      (r.admits path && (PathFilter.barring globs).admits path) :=
  r.filter.admits_excluding path

/-- A script that the globs match is left to no rule, any other to the same rules. -/
theorem admittedRules_excluding (rules : RuleSet) (script : Script) :
    admittedRules (rules.excluding texts globs) root script =
      if (PathFilter.barring globs).admits (root.relative script.path) then
        (admittedRules rules root script).map (Rule.excluding texts globs)
      else [] := by
  rw [admittedRules, admittedRules, RuleSet.excluding, List.filter_map]
  simp only [Function.comp_def, Rule.admits_excluding]
  by_cases hadmits : (PathFilter.barring globs).admits (root.relative script.path) = true
  · simp only [hadmits, Bool.and_true, if_true]
  · simp [hadmits]

theorem testsOn_excluding (script : Script) (rules : List Rule) (nodes : List Node) :
    testsOn script (rules.map (Rule.excluding texts globs)) nodes =
      (testsOn script rules nodes).map (Test.excluding texts globs) := by
  rw [testsOn, testsOn, List.map_flatMap]
  congr 1
  funext n
  rw [List.map_map, List.map_map]
  rfl

/-- The tests that are left are those on the scripts that the globs do not match. -/
theorem schedule_excluding (rules : RuleSet) (scripts : List Script) :
    schedule (rules.excluding texts globs) root scripts =
      (schedule rules root (scripts.filter fun script =>
        (PathFilter.barring globs).admits (root.relative script.path))).map
          (Test.excluding texts globs) := by
  induction scripts with
  | nil => rfl
  | cons script rest ih =>
      rw [schedule_cons, ih, admittedRules_excluding, List.filter_cons]
      by_cases hadmits : (PathFilter.barring globs).admits (root.relative script.path) = true
      · rw [if_pos hadmits, if_pos hadmits, schedule_cons, List.map_append, testsOn_excluding]
      · have hnone : testsOn script [] script.root.nodes = [] := by simp [testsOn]
        rw [if_neg hadmits, if_neg hadmits, hnone, List.nil_append]

/-- The same issues are found in the scripts that the globs do not match, and none elsewhere. -/
theorem issues_excluding (rules : RuleSet)
    {outcomes outcomes' : List (String × Except ScriptError Script)}
    (hscripts : outcomes.filterMap (·.2.toOption) =
      (outcomes'.filterMap (·.2.toOption)).filter fun script =>
        (PathFilter.barring globs).admits (root.relative script.path)) :
    (registered (rules.excluding texts globs) root outcomes').run.toList =
      (registered rules root outcomes).run.toList.map (Issue.excluding texts globs) := by
  rw [issues_registered, issues_registered, hscripts, schedule_excluding, List.filterMap_map,
    List.map_filterMap]
  congr 1
  funext t
  exact t.issue?_excluding

/-! ## Checks -/

/-- The issue without the exclude globs of its rule. -/
def Issue.bare (i : Issue) : Issue :=
  { i with
    rule :=
      { i.rule with
        definition := { i.rule.definition with excludes := [] }
        filter := { i.rule.filter with excludes := [] } } }

namespace CommandLine

def foundIssues (s : Surroundings) (vs : Values) (path : String) (file : RuleFile) :
    Except RuleError (List Issue) :=
  (eventsOf s vs path file).map (·.filterMap Event.issue?)

variable {file : RuleFile}

theorem chooseRules_distributed
    (hglobs : ∀ owner, PathFilter.parseGlobs owner file.excludes = .ok globs)
    (ids : List String) :
    chooseRules file.distributed ids =
      (chooseRules file ids).map (RuleSet.excluding file.excludes globs) := by
  simp only [chooseRules, RuleFile.distributed, RuleSet.build_excluding hglobs]
  cases RuleSet.build file.rules with
  | error e => rfl
  | ok rules =>
      simp only [Except.map]
      split
      · rfl
      · exact rules.select_excluding ids

def loadedBy (s : Surroundings) (vs : Values) (root : ProjectRoot) (filter : PathFilter) :
    List (String × Except ScriptError Script) :=
  (⟨s.files, root, filter, vs.languages⟩ : Discovery).scripts s.parser (inputs vs)

theorem foundIssues_eq (s : Surroundings) (vs : Values) (path : String) {filter : PathFilter}
    (hfilter : PathFilter.build fileOwner [] file.excludes = .ok filter) :
    foundIssues s vs path file =
      (chooseRules file vs.rules).map fun rules =>
        (registered rules (ProjectRoot.ofPath s.files (rootPath vs path))
          (loadedBy s vs (ProjectRoot.ofPath s.files (rootPath vs path)) filter)).run.toList := by
  rw [foundIssues, eventsOf, hfilter]
  cases chooseRules file vs.rules with
  | error e => rfl
  | ok rules => exact congrArg Except.ok (issues_runEvents _)

/-- One rule set finds the same, whether the globs keep files or rules away. -/
theorem issues_loadedBy (s : Surroundings) (vs : Values) (root : ProjectRoot) (rules : RuleSet) :
    (registered (rules.excluding texts globs) root (loadedBy s vs root .all)).run.toList =
      (registered rules root (loadedBy s vs root (.barring globs))).run.toList.map
        (Issue.excluding texts globs) := by
  let filtered : Discovery := ⟨s.files, root, .barring globs, vs.languages⟩
  have hscripts := filtered.scripts_eq_filter s.parser (inputs vs)
  exact issues_excluding rules hscripts

/--
A rule file finds the same issues, in the same order, when its exclude globs are
written behind those of every rule; only these globs of the rules then differ.
-/
theorem exclusion_levels_agree (s : Surroundings) (vs : Values) (path : String) (file : RuleFile)
    (hvalid : ∀ text ∈ file.excludes, ∃ g, Glob.parse text = .ok g) :
    (foundIssues s vs path file.distributed).map (List.map Issue.bare) =
      (foundIssues s vs path file).map (List.map Issue.bare) := by
  obtain ⟨globs, hglobs⟩ := PathFilter.exists_globs hvalid
  have hfile : PathFilter.build fileOwner [] file.excludes = .ok (.barring globs) := by
    simp only [PathFilter.build, PathFilter.globSet_eq_parseGlobs, PathFilter.parseGlobs, hglobs,
      PathFilter.barring]
  have hnone : PathFilter.build fileOwner [] file.distributed.excludes = .ok .all := rfl
  have hbare : Issue.bare ∘ Issue.excluding file.excludes globs = Issue.bare := rfl
  rw [foundIssues_eq s vs path hnone, foundIssues_eq s vs path hfile,
    chooseRules_distributed hglobs]
  cases chooseRules file vs.rules with
  | error e => rfl
  | ok rules => simp only [Except.map, issues_loadedBy, List.map_map, hbare]

/-! ## A project that carries scripts along -/

def moduleTree : Concrete :=
  .node ⟨"module", true, false, false, false, none, 0, 0, 0, 0, 0, 0⟩ []

/-- A project with a script of its own and one that it only carries along. -/
def vendored : Surroundings where
  files :=
    { top :=
        .directory .whole [("a.py", .file (.ok .empty)),
          ("vendor", .directory .whole [("b.py", .file (.ok .empty))])]
      workingDirectory := [] }
  parser := fun _ _ => .ok moduleTree

/-- Rules for every script but the ones that the project carries along. -/
def vendoredFile : RuleFile where
  rules :=
    [{ id := "module", pattern := .one "module", message := "a module", excludes := ["t/*"] },
      { id := "node", pattern := .one "_(...)", message := "a node", includes := ["**/*.py"] }]
  excludes := ["vendor/**", "*.\x7bmin,gen\x7d.py"]

def ownScript : Script :=
  ⟨"./a.py", .python, "", moduleTree.toNode ""⟩

theorem leadsStraight_vendored (path : String) : vendored.files.LeadsStraight path := by
  apply FileSystem.leadsStraight_of_linkFree
  apply FileSystem.linkFree_directory
  simp [FileSystem.linkFree_singleton, FileSystem.linkFree_file]

/-- Seen from the working directory, a path consists of the names that it spells. -/
theorem relative_vendored {path : String} {names : List String}
    (h : vendored.files.location path = names.map .ofText) :
    (ProjectRoot.ofPath vendored.files ".").relative path =
      Path.ofComponents (names.map .name) := by
  have hgrounded : ∀ path, vendored.files.Grounded path := fun _ => .inr (by decide +kernel)
  have hbelow : vendored.files.location path =
      vendored.files.location "." ++ names.map .ofText := by
    rw [h]
    rfl
  obtain ⟨names', hnames, -, hrelative⟩ := ProjectRoot.relative_of_location (by decide +kernel)
    (hgrounded ".") (hgrounded path) (leadsStraight_vendored _) (leadsStraight_vendored _) hbelow
  rw [hrelative, FileName.map_ofText_inj.1 hnames]

theorem relative_ownScript :
    (ProjectRoot.ofPath vendored.files ".").relative "./a.py" = "a.py" := by
  have hlocation : vendored.files.location "./a.py" = ["a.py"].map .ofText := by decide +kernel
  rw [relative_vendored hlocation]
  decide +kernel

theorem load_ownScript : Script.load vendored.files vendored.parser "./a.py" = .ok ownScript := by
  have hentry : vendored.files.entry? "./a.py" = some (.file (.ok .empty)) :=
    FileSystem.entry?_of_names ["."] ["a.py"] (by decide +kernel) (by decide +kernel)
      (by decide +kernel) (by decide +kernel) rfl (by simp) rfl
  have hempty : String.fromUTF8? .empty = some "" := by decide +kernel
  have hread : vendored.files.readText "./a.py" = .ok "" := by
    simp [FileSystem.readText, hentry, hempty]
  have hlanguage : Script.languageOf "./a.py" = .ok .python := by decide +kernel
  simp only [Script.load, hread, hlanguage]
  rfl

/-- A filter that bars what is carried along leaves the project's own script. -/
theorem scripts_vendored {filter : PathFilter} (hown : filter.admits "a.py" = true)
    (hcarried : filter.admits "vendor/b.py" = false) :
    loadedBy vendored {} (ProjectRoot.ofPath vendored.files ".") filter =
      [("./a.py", .ok ownScript)] := by
  let d : Discovery := ⟨vendored.files, ProjectRoot.ofPath vendored.files ".", filter, []⟩
  have hlocation : vendored.files.location "./vendor/b.py" = ["vendor", "b.py"].map .ofText := by
    decide +kernel
  have hpath : Path.ofComponents (["vendor", "b.py"].map .name) = "vendor/b.py" := by
    decide +kernel
  have htaken : d.takesMet "./a.py" = true := by
    have hlanguage : Language.ofPath? "./a.py" = some .python := by decide +kernel
    rw [Discovery.takesMet, Discovery.admits, relative_ownScript, hown, hlanguage]
    rfl
  have hbarred : d.takesMet "./vendor/b.py" = false := by
    rw [Discovery.takesMet, Discovery.admits, relative_vendored hlocation, hpath, hcarried,
      Bool.and_false]
  have hentry : vendored.files.entry? "." = some vendored.files.top :=
    FileSystem.entry?_of_names ["."] [] (by decide +kernel) (by decide +kernel)
      (by decide +kernel) (by simp) rfl (by simp [vendored]) rfl
  have hmeets : vendored.files.top.meets (some ".") =
      [.file (some "./a.py"), .file (some "./vendor/b.py")] := by decide +kernel
  have hfind : d.find ["."] = [.file "./a.py"] := by
    rw [Discovery.find, List.flatMap_singleton, Discovery.findAt, hentry]
    exact (congrArg (List.filterMap _) hmeets).trans
      (by simp [Discovery.ofMet?, htaken, hbarred])
  refine (congrArg (List.map (d.outcome vendored.parser)) hfind).trans ?_
  rw [List.map_singleton, Discovery.outcome, load_ownScript]

/-- Every rule finds an issue in the project's own script, and none in the other one. -/
theorem exclusion_levels_vendored :
    (∀ text ∈ vendoredFile.excludes, ∃ g, Glob.parse text = .ok g) ∧
      (foundIssues vendored {} "quarry.yml" vendoredFile.distributed).map (List.map Issue.bare) =
        (foundIssues vendored {} "quarry.yml" vendoredFile).map (List.map Issue.bare) ∧
      (foundIssues vendored {} "quarry.yml" vendoredFile).map
          (List.map fun i => (i.script.path, i.rule.id)) =
        .ok [("./a.py", "module"), ("./a.py", "node")] := by
  have hvalid : ∀ text ∈ vendoredFile.excludes, ∃ g, Glob.parse text = .ok g := by
    rintro text (_ | ⟨_, _ | ⟨_, _ | _⟩⟩)
    · exact exists_eq_ok (by decide +kernel)
    · exact exists_eq_ok (by decide +kernel)
  refine ⟨hvalid, exclusion_levels_agree vendored {} "quarry.yml" vendoredFile hvalid, ?_⟩
  obtain ⟨filter, hfilter⟩ : ∃ filter,
      PathFilter.build fileOwner [] vendoredFile.excludes = .ok filter :=
    (PathFilter.build_stopsAt _ _ _).ok_iff.2 (by decide +kernel)
  have hadmits : (PathFilter.build fileOwner [] vendoredFile.excludes).map
      (fun f => (f.admits "a.py", f.admits "vendor/b.py")) = .ok (true, false) := by
    decide +kernel
  rw [hfilter, Except.map, Except.ok.injEq, Prod.mk.injEq] at hadmits
  have hroot : rootPath {} "quarry.yml" = "." := by decide +kernel
  have hissues : (chooseRules vendoredFile []).map (fun rules =>
      ((testsOn ownScript (rules.rules.filter (·.admits "a.py")) ownScript.root.nodes).filterMap
        Test.issue?).map fun i => (i.script.path, i.rule.id)) =
      .ok [("./a.py", "module"), ("./a.py", "node")] := by
    decide +kernel
  rw [foundIssues_eq vendored {} "quarry.yml" hfilter, hroot,
    scripts_vendored hadmits.1 hadmits.2, ← hissues]
  cases chooseRules vendoredFile [] with
  | error e => rfl
  | ok rules =>
      have hadmitted : admittedRules rules (ProjectRoot.ofPath vendored.files ".") ownScript =
          rules.rules.filter (·.admits "a.py") := by
        rw [admittedRules, show ownScript.path = "./a.py" from rfl, relative_ownScript]
      simp [Except.map, issues_registered, Except.toOption, schedule, hadmitted]

end CommandLine

end TreeLint

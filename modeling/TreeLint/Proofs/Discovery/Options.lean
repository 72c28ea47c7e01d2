import Mathlib.Data.List.Forall2
import TreeLint.Proofs.Discovery.Filtering
import TreeLint.Proofs.FileSystem.Below

/-!
# The options of a discovery

Languages and path filter decide which of the files that exist are taken, and nothing
else.  A file of no language is loaded in vain when it was named, and is never taken from
a directory.
-/

namespace TreeLint

namespace Discovery

/-- A file that the options leave out: one of another language, or one that the filter rejects. -/
def Refused (d : Discovery) : Found → Prop
  | .file path =>
      (d.languages ≠ [] ∧ ∃ l, Language.ofPath? path = some l ∧ l ∉ d.languages) ∨
        d.filter.admits (d.root.relative path) = false
  | .failed _ _ => False

/-- An item of the scripts belongs to what was found: a file is loaded, a failure is passed on. -/
def Loads (d : Discovery) (parser : SourceParser) :
    Found → String × Except ScriptError Script → Prop
  | .file path, item => item = (path, Script.load d.files parser path)
  | .failed path e, item => item = (path, .error e)

theorem wants_eq_false_iff {d : Discovery} {l : Language} :
    d.wants l = false ↔ d.languages ≠ [] ∧ l ∉ d.languages := by
  unfold wants
  simp

theorem keeps_eq_false_iff (d : Discovery) (found : Found) :
    d.keeps found = false ↔ d.Refused found := by
  cases found with
  | failed path e => exact ⟨Bool.noConfusion, False.elim⟩
  | file path =>
      rw [keeps, Bool.and_eq_false_iff, Refused]
      refine or_congr ?_ Iff.rfl
      cases Language.ofPath? path with
      | none => simp
      | some l =>
          rw [Option.all_some, wants_eq_false_iff]
          simp

instance (d : Discovery) : DecidablePred d.Refused :=
  fun found => decidable_of_iff (d.keeps found = false) (d.keeps_eq_false_iff found)

theorem keeps_eq_not_refused (d : Discovery) (found : Found) :
    d.keeps found = !decide (d.Refused found) := by
  by_cases h : d.Refused found
  · rw [(d.keeps_eq_false_iff found).2 h, decide_eq_true h]
    rfl
  · rw [decide_eq_false h, Bool.not_false, ← Bool.not_eq_false]
    exact fun hfalse => h ((d.keeps_eq_false_iff found).1 hfalse)

end Discovery

/-! ## Files of no language -/

/-- Both ways to detect a language agree. -/
theorem Script.languageOf_eq (path : String) :
    languageOf path =
      match Language.ofPath? path with
      | some l => .ok l
      | none => .error (.unsupportedLanguage path) := by
  unfold languageOf Language.detect Language.ofPath?
  cases Path.extension? path with
  | none => rfl
  | some extension =>
      rw [Option.bind_some]
      cases hlanguage : Language.ofExtension? extension with
      | none => simp [hlanguage]
      | some l => simp [hlanguage]

theorem Script.ofConcrete_ne_unsupported (path : String) (l : Language) (source : String)
    (tree : Concrete) (p : String) :
    ofConcrete path l source tree ≠ .error (.unsupportedLanguage p) := by
  unfold ofConcrete
  by_cases herror : tree.head.hasError
  · rw [if_pos herror]
    cases tree.faults source <;> simp
  · rw [if_neg herror]
    simp

/-- A file is refused for its language exactly if its path has none. -/
theorem Script.load_eq_unsupported_iff {files : FileSystem} {parser : SourceParser}
    {path : String} :
    (∃ p, load files parser path = .error (.unsupportedLanguage p)) ↔
      Language.ofPath? path = none := by
  unfold load
  rw [languageOf_eq]
  cases Language.ofPath? path with
  | none => exact ⟨fun _ => rfl, fun _ => ⟨path, rfl⟩⟩
  | some l =>
      refine ⟨fun ⟨p, hp⟩ => ?_, fun h => by cases h⟩
      cases hread : files.readText path with
      | error e => simp [hread] at hp
      | ok source =>
          simp only [hread, parseAs] at hp
          cases htree : parser l source with
          | error cause => simp [htree] at hp
          | ok tree =>
              simp only [htree] at hp
              exact absurd hp (ofConcrete_ne_unsupported path l source tree p)

namespace Discovery

variable (d : Discovery) (parser : SourceParser)

theorem scripts_flatMap (inputs : List String) :
    d.scripts parser inputs = inputs.flatMap fun input => d.scripts parser [input] := by
  simp only [scripts, find, List.map_flatMap, List.flatMap_cons, List.flatMap_nil,
    List.append_nil]

theorem scripts_singleton (input : String) :
    d.scripts parser [input] = (d.findAt input).map (d.outcome parser) := by
  simp only [scripts, find, List.flatMap_cons, List.flatMap_nil, List.append_nil]

theorem loads_scripts (inputs : List String) :
    List.Forall₂ (d.Loads parser) (d.find inputs) (d.scripts parser inputs) := by
  rw [scripts, List.forall₂_map_right_iff, List.forall₂_same]
  intro found _
  cases found <;> exact rfl

theorem map_file_paths (inputs : List String) :
    (d.paths inputs).map Found.file = (d.find inputs).filter (·.file?.isSome) := by
  rw [paths]
  induction d.find inputs with
  | nil => rfl
  | cons found rest ih =>
      cases found with
      | file path => exact congrArg (.file path :: ·) ih
      | failed path e => exact ih

variable {input : String}

/-- What a walk adds is a file that is taken, or something that cannot be read. -/
theorem ofMet?_eq_some {m : Met} {found : Found} (h : d.ofMet? input m = some found) :
    (∃ path, found = .file path ∧ d.takesMet path = true) ∨
      ∃ path reason, found = .failed path (.unreadable reason) := by
  cases m with
  | fault path reason => exact .inr ⟨path.getD input, reason, (Option.some.inj h).symm⟩
  | file path =>
      cases path with
      | none => cases h
      | some path =>
          rw [ofMet?] at h
          split at h
          · rename_i htakes
            exact .inl ⟨path, (Option.some.inj h).symm, htakes⟩
          · cases h

/-- Every file that is met in a directory has a language. -/
theorem ne_unsupported_of_isDirectory (h : d.files.isDirectory input = true) :
    ∀ item ∈ d.scripts parser [input], ∀ p, item.2 ≠ .error (.unsupportedLanguage p) := by
  intro item hitem p hp
  obtain ⟨e, he, hdirectory⟩ := (Option.any_eq_true _ _).1 h
  cases e with
  | file content => cases hdirectory
  | link target => cases hdirectory
  | directory listing entries =>
      rw [scripts_singleton, findAt, he] at hitem
      obtain ⟨found, hfound, rfl⟩ := List.mem_map.1 hitem
      obtain ⟨m, -, hm⟩ := List.mem_filterMap.1 hfound
      rcases d.ofMet?_eq_some hm with ⟨path, rfl, htakes⟩ | ⟨path, reason, rfl⟩
      · have hnone : Language.ofPath? path = none := Script.load_eq_unsupported_iff.1 ⟨p, hp⟩
        rw [takesMet, hnone] at htakes
        cases htakes
      · cases hp

theorem findAt_of_isFile (h : d.files.isFile input = true) :
    d.findAt input = if d.Refused (.file input) then [] else [.file input] := by
  obtain ⟨e, he, hfile⟩ := (Option.any_eq_true _ _).1 h
  cases e with
  | directory listing entries => cases hfile
  | link target => cases hfile
  | file content =>
      have htakes : d.takesNamed input = !decide (d.Refused (.file input)) :=
        d.keeps_eq_not_refused (.file input)
      rw [findAt, he]
      simp only [htakes]
      by_cases hrefused : d.Refused (.file input)
      · simp [hrefused]
      · simp [hrefused]

/--
A discovery finds what it finds for all languages and all paths, less the files that its
options refuse, and in the same order.  Its paths are what it finds without the failures,
and its scripts are what it finds, loaded one by one.  No file that was met in a directory
fails for want of a language; one that was named does so, if it is taken at all, exactly if
its path has none.
-/
theorem options_only_filter (d : Discovery) (parser : SourceParser) (inputs : List String) :
    d.find inputs =
        (({ d with languages := [], filter := .all } : Discovery).find inputs).filter
          (fun found => !decide (d.Refused found)) ∧
      (d.paths inputs).map Found.file = (d.find inputs).filter (·.file?.isSome) ∧
      List.Forall₂ (d.Loads parser) (d.find inputs) (d.scripts parser inputs) ∧
      d.scripts parser inputs = inputs.flatMap (fun input => d.scripts parser [input]) ∧
      ∀ input,
        (d.files.isDirectory input = true →
          ∀ item ∈ d.scripts parser [input], ∀ p, item.2 ≠ .error (.unsupportedLanguage p)) ∧
        (d.files.isFile input = true →
          (d.scripts parser [input] = [] ↔ d.Refused (.file input)) ∧
            ∀ item ∈ d.scripts parser [input],
              item.1 = input ∧
                ((∃ p, item.2 = .error (.unsupportedLanguage p)) ↔
                  Language.ofPath? input = none)) := by
  refine ⟨?_, d.map_file_paths inputs, d.loads_scripts parser inputs,
    d.scripts_flatMap parser inputs, fun input => ⟨d.ne_unsupported_of_isDirectory parser,
      fun hfile => ?_⟩⟩
  · have hkeeps : d.keeps = fun found => !decide (d.Refused found) :=
      funext d.keeps_eq_not_refused
    rw [d.find_eq_filter, hkeeps]
    rfl
  · rw [scripts_singleton, d.findAt_of_isFile hfile]
    by_cases hrefused : d.Refused (.file input)
    · simp [hrefused]
    · refine ⟨by simp [hrefused], fun item hitem => ?_⟩
      rw [if_neg hrefused, List.map_singleton, List.mem_singleton] at hitem
      rw [hitem]
      exact ⟨rfl, Script.load_eq_unsupported_iff⟩

/--
Sources of several languages, with an entry of which only the name is known, a directory
that cannot be listed, a file that cannot be read and one whose name is no text.
-/
def mixedSources : FileEntry :=
  .directory (.given [⟨some "x.py", "stale handle"⟩])
    [("a.py", .file (.ok .empty)), ("b.rs", .file (.ok .empty)), ("c.md", .file (.ok .empty)),
      ("d", .directory (.refused "denied") []), ("e.py", .file (.error "denied")),
      (⟨[255, 46, 112, 121]⟩, .file (.ok .empty))]

def pythonOnly : Discovery where
  files :=
    { top := .directory .whole [("notes.md", .file (.ok .empty)), ("src", mixedSources)]
      workingDirectory := [] }
  root := ⟨{ top := .directory .whole [], workingDirectory := [] }, none⟩
  filter := .all
  languages := [.python]

theorem entry?_pythonOnly :
    pythonOnly.files.entry? "src" = some mixedSources ∧
      pythonOnly.files.entry? "notes.md" = some (.file (.ok .empty)) :=
  ⟨FileSystem.entry?_of_names [] ["src"] (by decide +kernel) (by decide +kernel) (by simp)
      (by decide +kernel) rfl (by simp [mixedSources]) rfl,
    FileSystem.entry?_of_names [] ["notes.md"] (by decide +kernel) (by decide +kernel) (by simp)
      (by decide +kernel) rfl (by simp) rfl⟩

/-- Everything that there is to find, taken or not. -/
theorem find_pythonOnly_unrestricted :
    ({ pythonOnly with languages := [], filter := .all } : Discovery).find ["src", "notes.md"] =
      [.failed "src/x.py" (.unreadable "stale handle"), .file "src/a.py", .file "src/b.rs",
        .failed "src/d" (.unreadable "denied"), .file "src/e.py", .file "notes.md"] := by
  obtain ⟨hsrc, hnotes⟩ := entry?_pythonOnly
  have hwalk : ({ pythonOnly with languages := [], filter := .all } : Discovery).findAt "src" =
      [.failed "src/x.py" (.unreadable "stale handle"), .file "src/a.py", .file "src/b.rs",
        .failed "src/d" (.unreadable "denied"), .file "src/e.py"] := by
    rw [findAt, hsrc]
    decide +kernel
  have hfile : ({ pythonOnly with languages := [], filter := .all } : Discovery).findAt
      "notes.md" = [.file "notes.md"] := by
    rw [findAt, hnotes]
    decide +kernel
  rw [find, List.flatMap_cons, List.flatMap_singleton, hwalk, hfile]
  rfl

/-- The source in another language is left out, and the faults stay where they were. -/
theorem scripts_pythonOnly :
    pythonOnly.files.isDirectory "src" = true ∧ pythonOnly.files.isFile "notes.md" = true ∧
      pythonOnly.find ["src", "notes.md"] =
        [.failed "src/x.py" (.unreadable "stale handle"), .file "src/a.py",
          .failed "src/d" (.unreadable "denied"), .file "src/e.py", .file "notes.md"] ∧
      ∀ parser,
        (∀ item ∈ pythonOnly.scripts parser ["src"], ∀ p,
          item.2 ≠ .error (.unsupportedLanguage p)) ∧
        pythonOnly.scripts parser ["notes.md"] ≠ [] ∧
        ∀ item ∈ pythonOnly.scripts parser ["notes.md"], ∃ p,
          item.2 = .error (.unsupportedLanguage p) := by
  obtain ⟨hsrc, hnotes⟩ := entry?_pythonOnly
  have hdirectory : pythonOnly.files.isDirectory "src" = true := by
    rw [FileSystem.isDirectory, hsrc]
    rfl
  have hfile : pythonOnly.files.isFile "notes.md" = true := by
    rw [FileSystem.isFile, hnotes]
    rfl
  have hlanguage : Language.ofPath? "notes.md" = none := by decide +kernel
  have htaken : ¬ pythonOnly.Refused (.file "notes.md") := by
    rintro (⟨-, l, hl, -⟩ | hrejected)
    · rw [hlanguage] at hl
      cases hl
    · cases hrejected
  refine ⟨hdirectory, hfile, ?_, fun parser => ?_⟩
  · have hparser : SourceParser := fun language _ => .error (.parse language "no grammar")
    obtain ⟨hfind, -⟩ := options_only_filter pythonOnly hparser ["src", "notes.md"]
    rw [hfind, find_pythonOnly_unrestricted]
    decide +kernel
  · obtain ⟨-, -, -, -, hinputs⟩ := options_only_filter pythonOnly parser ["src", "notes.md"]
    obtain ⟨hempty, hitems⟩ := (hinputs "notes.md").2 hfile
    exact ⟨(hinputs "src").1 hdirectory, fun h => htaken (hempty.1 h),
      fun item hitem => (hitems item hitem).2.2 hlanguage⟩

end Discovery

end TreeLint

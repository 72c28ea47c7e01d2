import TreeLint.Proofs.Analysis.Schedule
import TreeLint.Proofs.FileSystem.Names
import TreeLint.Proofs.Path.NormalForm

/-!
# Paths below a project root

The path of a file relative to a project root depends on the places that the two
paths spell and not on how they spell them, as long as no link on them leads to
another place and the working directory, if they start there, can be told as text.
-/

namespace TreeLint

theorem Path.stripBase?_eq_some_iff {base cs rest : List Path.Component} :
    stripBase? base cs = some rest ↔ cs = base ++ rest := by
  fun_induction stripBase? base cs with
  | case1 cs => simp [eq_comm]
  | case2 b bs => simp
  | case3 b bs cs ih => simp [ih]
  | case4 b bs c cs hne => simp [Ne.symm hne]

namespace FileSystem

/-- The names from the top to the place that a path spells, without a look at the files. -/
def location (fs : FileSystem) (path : String) : List FileName :=
  FileName.walk (fs.start path) (FileName.parts (Text.utf8 path))

/-- No link on the path leads away from the place that it spells. -/
def LeadsStraight (fs : FileSystem) (path : String) : Prop :=
  ∀ names, fs.locate? path = some names → names = fs.location path

/-- A path is spelled from the root, or from a working directory that can be told as text. -/
def Grounded (fs : FileSystem) (path : String) : Prop :=
  Path.isAbsolute path = true ∨ fs.workingPath?.isSome = true

variable {fs : FileSystem} {path : String}

theorem workingPath?_eq_some {working : String} (h : fs.workingPath? = some working) :
    ∃ names : List String, fs.workingDirectory = names.map .ofText ∧
      working = Path.ofComponents (.root :: names.map .name) := by
  unfold workingPath? at h
  split at h
  · obtain ⟨names, hnames, rfl⟩ := Option.map_eq_some_iff.1 h
    exact ⟨names, FileName.mapM_text?_eq_some_iff.1 hnames, rfl⟩
  · cases h

/-- What is normalized is the walk over the parts, from the root or the working directory. -/
theorem Grounded.normalized?_eq (h : fs.Grounded path)
    (hdirectory : ∀ name ∈ fs.workingDirectory, name.IsProper) :
    ∃ here : List String, fs.start path = here.map .ofText ∧
      (∀ name ∈ here, Path.IsName name) ∧
      fs.normalized? path =
        some (.root :: (Path.walk here (Path.parts path.toList)).map .name) := by
  by_cases habsolute : Path.isAbsolute path = true
  · refine ⟨[], by rw [start, if_pos habsolute]; rfl, by simp, ?_⟩
    rw [normalized?, if_pos habsolute, Path.components_normalize, Path.fold_components habsolute]
  · obtain ⟨working, hworking⟩ := Option.isSome_iff_exists.1 (h.resolve_left habsolute)
    obtain ⟨names, hnames, rfl⟩ := workingPath?_eq_some hworking
    have hproper : ∀ name ∈ names, Path.IsName name :=
      FileName.forall_isProper_ofText_iff.1 (hnames ▸ hdirectory)
    refine ⟨names, by rw [start, if_neg habsolute, hnames], hproper, ?_⟩
    rw [normalized?, if_neg habsolute, hworking, Option.map_some, Path.components_normalize,
      Path.fold_components (Path.isAbsolute_join (Path.isAbsolute_ofComponents _) path),
      Path.walk_parts_join, if_neg habsolute, Path.walk_parts_ofComponents hproper]

/-- A path that leads straight to a place that it spells in text is resolved to that place. -/
theorem Grounded.resolve_eq (h : fs.Grounded path)
    (hdirectory : ∀ name ∈ fs.workingDirectory, name.IsProper) (hstraight : fs.LeadsStraight path) :
    ∃ names : List String, fs.location path = names.map .ofText ∧
      (∀ name ∈ names, Path.IsName name) ∧
      fs.resolve path = some (.root :: names.map .name) := by
  obtain ⟨here, hstart, hhere, hnormalized⟩ := h.normalized?_eq hdirectory
  have hlocation : fs.location path =
      (Path.walk here (Path.parts path.toList)).map .ofText := by
    rw [location, hstart, FileName.walk_ofText]
  have hparts : ∀ part ∈ Path.parts path.toList, '/' ∉ part :=
    fun _ => Text.not_mem_of_mem_pieces
  refine ⟨_, hlocation, Path.isName_walk _ hparts hhere, ?_⟩
  unfold resolve
  cases hcanonical : fs.canonical? path with
  | none => exact hnormalized
  | some names =>
      unfold canonical? at hcanonical
      split at hcanonical
      · obtain ⟨there, hlocate, hthere⟩ := Option.bind_eq_some_iff.1 hcanonical
        rw [FileName.mapM_text?_eq_some_iff, hstraight there hlocate, hlocation,
          FileName.map_ofText_inj] at hthere
        rw [hthere]
      · cases hcanonical

end FileSystem

namespace ProjectRoot

variable {fs : FileSystem} {root path : String}

theorem relative_below {base below : List String}
    (hroot : fs.resolve root = some (.root :: base.map .name))
    (hpath : fs.resolve path = some (.root :: (base ++ below).map .name)) :
    (ofPath fs root).relative path = Path.ofComponents (below.map .name) := by
  have hstrip : Path.stripBase? (.root :: base.map .name) (.root :: (base ++ below).map .name) =
      some (below.map .name) := by
    rw [Path.stripBase?_eq_some_iff, List.map_append]
    rfl
  simp only [relative, ofPath, hroot, hpath, hstrip]

theorem relative_elsewhere {base place : List String}
    (hroot : fs.resolve root = some (.root :: base.map .name))
    (hpath : fs.resolve path = some (.root :: place.map .name)) (h : ¬ base <+: place) :
    (ofPath fs root).relative path = path := by
  have hstrip : Path.stripBase? (.root :: base.map .name) (.root :: place.map .name) = none := by
    rw [Option.eq_none_iff_forall_ne_some]
    intro rest hrest
    rw [Path.stripBase?_eq_some_iff, List.cons_append, List.cons.injEq,
      List.map_eq_append_iff] at hrest
    obtain ⟨-, front, below, hplace, hfront, -⟩ := hrest
    have heq : front = base :=
      (List.map_inj_right fun _ _ hname => Path.Component.name.inj hname).1 hfront
    exact h ⟨below, by rw [hplace, heq]⟩
  simp only [relative, ofPath, hroot, hpath, hstrip]

/-- What a path adds to the place of a root is text, and is its relative path. -/
theorem relative_of_location (hdirectory : ∀ name ∈ fs.workingDirectory, name.IsProper)
    (hroot : fs.Grounded root) (hpath : fs.Grounded path) (hrootStraight : fs.LeadsStraight root)
    (hpathStraight : fs.LeadsStraight path) {below : List FileName}
    (h : fs.location path = fs.location root ++ below) :
    ∃ names : List String, below = names.map .ofText ∧ (∀ name ∈ names, Path.IsName name) ∧
      (ofPath fs root).relative path = Path.ofComponents (names.map .name) := by
  obtain ⟨base, hbase, -, hresolved⟩ := hroot.resolve_eq hdirectory hrootStraight
  obtain ⟨place, hplace, hproper, hresolved'⟩ := hpath.resolve_eq hdirectory hpathStraight
  rw [hbase, hplace] at h
  obtain ⟨front, names, rfl, hfront, hnames⟩ := List.map_eq_append_iff.1 h
  rw [FileName.map_ofText_inj] at hfront
  subst hfront
  exact ⟨names, hnames.symm, fun name hname => hproper name (List.mem_append_right _ hname),
    relative_below hresolved hresolved'⟩

/--
Below the root, the relative path has as components the names that lead from the
place of the root to the place of the path; elsewhere it is the path as given.
All spellings of a place below the root have one relative path, so the same rules
apply to a script whichever of them it was given by.  Root and paths start at the top or in
a working directory that can be told as text.
-/
theorem relative_path_by_location (hdirectory : ∀ name ∈ fs.workingDirectory, name.IsProper)
    (hroot : fs.Grounded root) (hpath : fs.Grounded path) (hrootStraight : fs.LeadsStraight root)
    (hpathStraight : fs.LeadsStraight path) :
    (∀ below, fs.location path = fs.location root ++ below →
      ∃ names : List String, below = names.map .ofText ∧
        Path.components ((ofPath fs root).relative path) = names.map .name ∧
        ((ofPath fs root).relative path).toList = ['/'].intercalate (names.map String.toList)) ∧
      (¬ fs.location root <+: fs.location path → (ofPath fs root).relative path = path) ∧
      ∀ other, fs.Grounded other → fs.LeadsStraight other →
        fs.location other = fs.location path → fs.location root <+: fs.location path →
        (ofPath fs root).relative other = (ofPath fs root).relative path ∧
        ∀ (rules : RuleSet) (script script' : Script), script.path = path →
          script'.path = other → admittedRules rules (ofPath fs root) script' =
            admittedRules rules (ofPath fs root) script := by
  refine ⟨?_, ?_, ?_⟩
  · intro below h
    obtain ⟨names, hbelow, hproper, hrelative⟩ :=
      relative_of_location hdirectory hroot hpath hrootStraight hpathStraight h
    rw [hrelative]
    exact ⟨names, hbelow, Path.components_ofComponents hproper, Path.toList_ofComponents hproper⟩
  · intro h
    obtain ⟨base, hbase, -, hresolved⟩ := hroot.resolve_eq hdirectory hrootStraight
    obtain ⟨place, hplace, -, hresolved'⟩ := hpath.resolve_eq hdirectory hpathStraight
    refine relative_elsewhere hresolved hresolved' fun hprefix => h ?_
    rw [hbase, hplace]
    exact hprefix.map _
  · rintro other hother hotherStraight hsame ⟨below, hbelow⟩
    obtain ⟨names, hnames, -, hrelative⟩ :=
      relative_of_location hdirectory hroot hpath hrootStraight hpathStraight hbelow.symm
    obtain ⟨names', hnames', -, hrelative'⟩ := relative_of_location hdirectory hroot hother
      hrootStraight hotherStraight (hsame.trans hbelow.symm)
    have heq : names' = names := FileName.map_ofText_inj.1 (hnames'.symm.trans hnames)
    have hspelling : (ofPath fs root).relative other = (ofPath fs root).relative path := by
      rw [hrelative', hrelative, heq]
    refine ⟨hspelling, ?_⟩
    intro rules script script' hscript hscript'
    rw [admittedRules, admittedRules, hscript, hscript', hspelling]

end ProjectRoot

/-! ## File systems without links -/

theorem FileEntry.at?_concat {top : FileEntry} {here : List FileName} {listing : Listing}
    {entries : List (FileName × FileEntry)} (h : top.at? here = some (.directory listing entries))
    (name : FileName) : top.at? (here ++ [name]) = entries.lookup name := by
  induction here generalizing top with
  | nil =>
      rw [at?, Option.some.injEq] at h
      subst h
      rw [List.nil_append, at?, FileEntry.entries]
      cases List.lookup name entries <;> rfl
  | cons first here ih =>
      rw [at?] at h
      rw [List.cons_append, at?]
      cases hchild : top.entries.lookup first with
      | none =>
          rw [hchild] at h
          cases h
      | some child =>
          rw [hchild] at h
          exact ih h

namespace FileSystem

def LinkFree (top : FileEntry) : Prop :=
  ∀ names target, top.at? names ≠ some (.link target)

theorem linkFree_file (content : Except String ByteArray) : LinkFree (.file content) := by
  intro names target
  cases names <;> simp [FileEntry.at?, FileEntry.entries]

theorem linkFree_directory {listing : Listing} {entries : List (FileName × FileEntry)}
    (h : ∀ e ∈ entries, LinkFree e.2) : LinkFree (.directory listing entries) := by
  intro names target
  cases names with
  | nil => simp [FileEntry.at?]
  | cons name rest =>
      rw [FileEntry.at?, FileEntry.entries]
      cases hchild : entries.lookup name with
      | none => simp
      | some child =>
          obtain ⟨before, after, hentries, -⟩ := List.lookup_eq_some_iff.1 hchild
          exact h (name, child) (by simp [hentries]) rest target

theorem linkFree_singleton {listing : Listing} {name : FileName} {e : FileEntry}
    (h : LinkFree e) : LinkFree (.directory listing [(name, e)]) :=
  linkFree_directory (by simpa using h)

/-- Without links a path leads where it spells, if it leads anywhere. -/
theorem follow_of_linkFree {top : FileEntry} (hfree : LinkFree top) {links : Nat}
    {here names parts : List FileName} (h : follow top links here parts = some names) :
    names = FileName.walk here parts := by
  fun_induction follow top links here parts with
  | case1 => exact (Option.some.inj h).symm
  | case2 links here part rest listing entries hhere hstay ih =>
      rw [FileName.walk, List.foldl_cons, FileName.advance, if_pos hstay]
      exact ih h
  | case3 links here part rest listing entries hhere hstay hup ih =>
      rw [FileName.walk, List.foldl_cons, FileName.advance, if_neg hstay, if_pos hup]
      exact ih h
  | case7 here part rest listing entries hhere hstay hup target links hlink hempty start ih =>
      have hat := FileEntry.at?_concat hhere part
      rw [hlink] at hat
      exact absurd hat (hfree _ target)
  | case8 here part rest listing entries hhere hstay hup entry links hzero hsucc hentry ih =>
      rw [FileName.walk, List.foldl_cons, FileName.advance, if_neg hstay, if_neg hup]
      exact ih h
  | _ => cases h

theorem leadsStraight_of_linkFree {fs : FileSystem} (hfree : LinkFree fs.top) (path : String) :
    fs.LeadsStraight path := by
  intro names h
  unfold locate? at h
  split at h
  · cases h
  · exact follow_of_linkFree hfree h

end FileSystem

namespace ProjectRoot

/-- A script two directories below the top, seen from the lower one. -/
def sources : FileSystem where
  top :=
    .directory .whole [("repo", .directory .whole [("src", .directory .whole
      [("a.py", .file (.ok .empty))])])]
  workingDirectory := ["repo", "src"]

theorem leadsStraight_sources (path : String) : sources.LeadsStraight path := by
  apply FileSystem.leadsStraight_of_linkFree
  iterate 3 apply FileSystem.linkFree_singleton
  exact FileSystem.linkFree_file _

/--
Two spellings of a script below a root, one of which passes through a directory
that is not there; and a path that climbs above the root.
-/
theorem relative_sources :
    (ofPath sources "..").relative "./../src//a.py" = "src/a.py" ∧
      (ofPath sources "..").relative "/repo/lib/../src/a.py/" = "src/a.py" ∧
      (ofPath sources "..").relative "../../x.py" = "../../x.py" := by
  have hdirectory : ∀ name ∈ sources.workingDirectory, name.IsProper := by decide +kernel
  have hworking : sources.workingPath?.isSome = true := by decide +kernel
  have hgrounded : ∀ path, sources.Grounded path := fun _ => .inr hworking
  have hplace : sources.location "./../src//a.py" =
      sources.location ".." ++ ["src", "a.py"].map FileName.ofText := by decide +kernel
  have hother : sources.location "/repo/lib/../src/a.py/" =
      sources.location "./../src//a.py" := by decide +kernel
  obtain ⟨hbelow, -, hsame⟩ := relative_path_by_location hdirectory (hgrounded "..")
    (hgrounded "./../src//a.py") (leadsStraight_sources _) (leadsStraight_sources _)
  obtain ⟨-, helsewhere, -⟩ := relative_path_by_location hdirectory (hgrounded "..")
    (hgrounded "../../x.py") (leadsStraight_sources _) (leadsStraight_sources _)
  have hrelative : (ofPath sources "..").relative "./../src//a.py" = "src/a.py" := by
    obtain ⟨names, hnames, -, htext⟩ := hbelow _ hplace
    have heq : names = ["src", "a.py"] := FileName.map_ofText_inj.1 hnames.symm
    rw [← String.toList_inj, htext, heq]
    decide +kernel
  refine ⟨hrelative, ?_, helsewhere (by decide +kernel)⟩
  have hspelling := hsame "/repo/lib/../src/a.py/" (hgrounded _) (leadsStraight_sources _)
    hother ⟨_, hplace.symm⟩
  rw [hspelling.1, hrelative]

/-- A script below a working directory whose name is no text. -/
def unnamed : FileSystem where
  top :=
    .directory .whole [("tmp", .directory .whole [(⟨[255]⟩, .directory .whole
      [("src", .directory .whole [("a.py", .file (.ok .empty))])])])]
  workingDirectory := ["tmp", ⟨[255]⟩]

theorem leadsStraight_unnamed (path : String) : unnamed.LeadsStraight path := by
  apply FileSystem.leadsStraight_of_linkFree
  iterate 4 apply FileSystem.linkFree_singleton
  exact FileSystem.linkFree_file _

/-- A path below a place that is no text has no resolved form. -/
theorem resolve_unnamed {path : String} (hrelative : Path.isAbsolute path = false)
    (hforeign : (unnamed.location path).mapM FileName.text? = none) :
    unnamed.resolve path = none := by
  have hcanonical : unnamed.canonical? path = none := by
    unfold FileSystem.canonical?
    split
    · cases hlocate : unnamed.locate? path with
      | none => rfl
      | some names => rwa [Option.bind_some, leadsStraight_unnamed path names hlocate]
    · rfl
  have hworking : unnamed.workingPath? = none := by decide +kernel
  simp [FileSystem.resolve, hcanonical, FileSystem.normalized?, hrelative, hworking]

/-- Where the working directory is no text, two spellings of one script stay two paths. -/
theorem relative_depends_on_spelling :
    (∀ name ∈ unnamed.workingDirectory, name.IsProper) ∧ unnamed.LeadsStraight "." ∧
      unnamed.LeadsStraight "./src/a.py" ∧ unnamed.LeadsStraight "src/a.py" ∧
      unnamed.location "./src/a.py" = unnamed.location "." ++ ["src", "a.py"].map .ofText ∧
      unnamed.location "src/a.py" = unnamed.location "./src/a.py" ∧
      (ofPath unnamed ".").relative "./src/a.py" = "./src/a.py" ∧
      (ofPath unnamed ".").relative "src/a.py" = "src/a.py" ∧
      Path.components ((ofPath unnamed ".").relative "./src/a.py") ≠
        [.name "src", .name "a.py"] := by
  have hroot : unnamed.resolve "." = none :=
    resolve_unnamed (by decide +kernel) (by decide +kernel)
  have hkept : ∀ path, (ofPath unnamed ".").relative path = path := by
    intro path
    simp [relative, ofPath, hroot]
  refine ⟨by decide +kernel, leadsStraight_unnamed _, leadsStraight_unnamed _,
    leadsStraight_unnamed _, by decide +kernel, by decide +kernel, hkept _, hkept _, ?_⟩
  rw [hkept]
  decide +kernel

end ProjectRoot

end TreeLint

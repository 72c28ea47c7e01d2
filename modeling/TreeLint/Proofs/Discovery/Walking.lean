import TreeLint.Discovery
import TreeLint.Proofs.FileSystem.Below
import TreeLint.Proofs.FileSystem.Order

/-!
# The walk of a directory

A file that is met in a directory is given by the names that lead down to it.  The walk
meets exactly the files to which no hidden name leads, and it meets them in the order of
these names, compared one by one.  Of these files the discovery takes the scripts whose
names are all text.
-/

namespace TreeLint

/-! ## Paths of names -/

def FileName.below? (path : Option String) (names : List FileName) : Option String :=
  names.foldl FileName.under path

theorem FileName.below?_none (names : List FileName) : below? none names = none := by
  induction names with
  | nil => rfl
  | cons name names ih => exact ih

theorem FileName.below?_some (path : String) (names : List FileName) :
    below? (some path) names = (names.mapM text?).map (Path.below path) := by
  induction names generalizing path with
  | nil => rfl
  | cons name names ih =>
      rw [below?, List.foldl_cons, under, Option.bind_some, List.mapM_cons]
      cases name.text? with
      | none => exact below?_none names
      | some text =>
          rw [Option.map_some, Option.bind_eq_bind, Option.bind_some]
          refine (ih (Path.join path text)).trans ?_
          cases names.mapM text? <;> rfl

namespace FileEntry

/-! ## What is met -/

/-- Every directory in the tree can be listed in full. -/
inductive Listable : FileEntry → Prop
  | file (content : Except String ByteArray) : Listable (.file content)
  | link (target : List UInt8) : Listable (.link target)
  | directory {entries : List (FileName × FileEntry)} (below : ∀ e ∈ entries, Listable e.2) :
      Listable (.directory .whole entries)

mutual

def visibleNames : FileEntry → List (List FileName)
  | .file _ => [[]]
  | .directory _ entries => visibleNamesIn entries
  | .link _ => []

def visibleNamesIn : List (FileName × FileEntry) → List (List FileName)
  | [] => []
  | (name, e) :: rest =>
      (if name.isHidden then [] else (visibleNames e).map (name :: ·)) ++ visibleNamesIn rest

end

theorem meetsIn_eq {entries : List (FileName × FileEntry)}
    (h : ∀ e ∈ entries, ∀ path,
      meets path e.2 = (visibleNames e.2).map fun names => .file (FileName.below? path names))
    (path : Option String) :
    meetsIn path entries =
      (visibleNamesIn entries).map fun names => .file (FileName.below? path names) := by
  induction entries with
  | nil => rw [meetsIn, visibleNamesIn, List.map_nil]
  | cons first rest ih =>
      obtain ⟨name, e⟩ := first
      obtain ⟨hfirst, hrest⟩ := List.forall_mem_cons.1 h
      rw [meetsIn, visibleNamesIn, List.map_append, ih hrest]
      by_cases hhidden : name.isHidden = true
      · rw [if_pos hhidden, if_pos hhidden, List.map_nil]
      · rw [if_neg hhidden, if_neg hhidden, hfirst, List.map_map]
        rfl

/-- Where every directory can be listed, a walk meets only files. -/
theorem Listable.meets_eq {e : FileEntry} (h : e.Listable) (path : Option String) :
    meets path e = (visibleNames e).map fun names => .file (FileName.below? path names) := by
  induction h generalizing path with
  | file content =>
      rw [meets, visibleNames, List.map_singleton]
      rfl
  | link target => rw [meets, visibleNames, List.map_nil]
  | directory below ih =>
      rw [Listing.whole, meets, visibleNames, List.map_nil, List.nil_append]
      exact meetsIn_eq ih path

theorem mem_visibleNamesIn {entries : List (FileName × FileEntry)} {names : List FileName} :
    names ∈ visibleNamesIn entries ↔
      ∃ name child rest, names = name :: rest ∧ (name, child) ∈ entries ∧
        name.isHidden = false ∧ rest ∈ visibleNames child := by
  induction entries with
  | nil => simp [visibleNamesIn]
  | cons first entries ih =>
      obtain ⟨name, e⟩ := first
      rw [visibleNamesIn, List.mem_append, ih]
      constructor
      · rintro (h | ⟨name', child, rest, hnames, hmem, h⟩)
        · by_cases hhidden : name.isHidden = true
          · rw [if_pos hhidden] at h
            cases h
          · rw [if_neg hhidden] at h
            obtain ⟨rest, hrest, rfl⟩ := List.mem_map.1 h
            exact ⟨name, e, rest, rfl, List.mem_cons_self, by simpa using hhidden, hrest⟩
        · exact ⟨name', child, rest, hnames, List.mem_cons_of_mem _ hmem, h⟩
      · rintro ⟨name', child, rest, hnames, hmem, hvisible, hrest⟩
        rcases List.mem_cons.1 hmem with heq | hmem
        · cases heq
          refine .inl ?_
          rw [if_neg (by simp [hvisible]), hnames]
          exact List.mem_map_of_mem hrest
        · exact .inr ⟨name', child, rest, hnames, hmem, hvisible, hrest⟩

/-- Leaving out hidden subtrees leaves out the files with a hidden name on the way. -/
theorem Ordered.mem_visibleNames {e : FileEntry} (h : e.Ordered) {names : List FileName} :
    names ∈ visibleNames e ↔
      (∃ content, e.at? names = some (.file content)) ∧
        ∀ name ∈ names, name.isHidden = false := by
  induction h generalizing names with
  | file content =>
      cases names with
      | nil => simp [visibleNames, FileEntry.at?]
      | cons name names => simp [visibleNames, FileEntry.at?, FileEntry.entries]
  | link target =>
      cases names with
      | nil => simp [visibleNames, FileEntry.at?]
      | cons name names => simp [visibleNames, FileEntry.at?, FileEntry.entries]
  | @directory listing entries hproper hsorted hbelow ih =>
      rw [visibleNames, mem_visibleNamesIn]
      constructor
      · rintro ⟨name, child, rest, rfl, hmem, hvisible, hrest⟩
        obtain ⟨⟨content, hcontent⟩, hhidden⟩ := (ih _ hmem).1 hrest
        refine ⟨⟨content, ?_⟩, List.forall_mem_cons.2 ⟨hvisible, hhidden⟩⟩
        rw [FileEntry.at?, FileEntry.entries, (lookup_eq_some_iff_mem hsorted).2 hmem]
        exact hcontent
      · rintro ⟨⟨content, hcontent⟩, hhidden⟩
        cases names with
        | nil => cases hcontent
        | cons name rest =>
            obtain ⟨hvisible, hrest⟩ := List.forall_mem_cons.1 hhidden
            obtain ⟨listing', entries', child, hentries, hchild, hfile⟩ :=
              at?_cons_eq_some hcontent
            cases hentries
            have hmem := mem_of_lookup hchild
            exact ⟨name, child, rest, rfl, hmem, hvisible,
              (ih _ hmem).2 ⟨⟨content, hfile⟩, hrest⟩⟩

/-! ## The order of the walk -/

theorem names_lt_of_before {a b : FileName} (h : a.before b = true) (xs ys : List FileName) :
    (a :: xs).map FileName.bytes < (b :: ys).map FileName.bytes := by
  rw [List.map_cons, List.map_cons, List.cons_lt_cons_iff]
  exact .inl (FileName.before_iff.1 h)

theorem names_cons_lt_cons (a : FileName) {xs ys : List FileName}
    (h : xs.map FileName.bytes < ys.map FileName.bytes) :
    (a :: xs).map FileName.bytes < (a :: ys).map FileName.bytes := by
  rw [List.map_cons, List.map_cons, List.cons_lt_cons_iff]
  exact .inr ⟨rfl, h⟩

theorem pairwise_visibleNamesIn {entries : List (FileName × FileEntry)}
    (hsorted : entries.Pairwise fun a b => a.1.before b.1 = true)
    (hbelow : ∀ e ∈ entries,
      (visibleNames e.2).Pairwise fun a b => a.map FileName.bytes < b.map FileName.bytes) :
    (visibleNamesIn entries).Pairwise fun a b => a.map FileName.bytes < b.map FileName.bytes := by
  induction entries with
  | nil => exact .nil
  | cons first entries ih =>
      obtain ⟨name, e⟩ := first
      obtain ⟨hfirst, hsorted⟩ := List.pairwise_cons.1 hsorted
      obtain ⟨hhead, hbelow⟩ := List.forall_mem_cons.1 hbelow
      rw [visibleNamesIn]
      refine List.pairwise_append.2 ⟨?_, ih hsorted hbelow, fun a ha b hb => ?_⟩
      · by_cases hhidden : name.isHidden = true
        · rw [if_pos hhidden]
          exact .nil
        · rw [if_neg hhidden, List.pairwise_map]
          exact hhead.imp (names_cons_lt_cons name)
      · by_cases hhidden : name.isHidden = true
        · rw [if_pos hhidden] at ha
          cases ha
        · rw [if_neg hhidden] at ha
          obtain ⟨a, -, rfl⟩ := List.mem_map.1 ha
          obtain ⟨name', child, rest, rfl, hmem, -⟩ := mem_visibleNamesIn.1 hb
          exact names_lt_of_before (hfirst _ hmem) a rest

theorem Ordered.pairwise_visibleNames {e : FileEntry} (h : e.Ordered) :
    (visibleNames e).Pairwise fun a b => a.map FileName.bytes < b.map FileName.bytes := by
  induction h with
  | file content => exact List.pairwise_singleton _ _
  | link target => exact .nil
  | directory hproper hsorted hbelow ih =>
      rw [visibleNames]
      exact pairwise_visibleNamesIn hsorted ih

/-! ## Visible scripts -/

/--
Names lead from an entry to a visible script: a regular file, whose last name has the
extension of a language, and no name on the way begins with a point.
-/
def VisibleScript (e : FileEntry) (names : List FileName) : Prop :=
  (∃ content, e.at? names = some (.file content)) ∧
    (∀ name ∈ names, name.bytes.head? ≠ some FileName.point) ∧
    ∃ name ∈ names.getLast?, ∃ extension ∈ name.extension?,
      (Language.ofExtension? extension).isSome

end FileEntry

theorem FileName.isHidden_ofText_eq_false_iff {text : String} :
    (ofText text).isHidden = false ↔ (ofText text).bytes.head? ≠ some point := by
  have hhead : (Text.utf8 text).head? = some point ↔ text.toList.head? = some '.' := by
    cases hchars : text.toList with
    | nil => simp [Text.utf8, hchars]
    | cons c cs =>
        rw [Text.utf8, hchars, List.flatMap_cons]
        by_cases hc : c = '.'
        · subst hc
          exact ⟨fun _ => rfl, fun _ => rfl⟩
        · have hpoint : point ∉ String.utf8EncodeChar c :=
            Text.not_mem_utf8EncodeChar (by decide) (by decide) hc
          obtain ⟨b, bs, hb⟩ := List.exists_cons_of_ne_nil (String.utf8EncodeChar_ne_nil (c := c))
          rw [hb, List.mem_cons, not_or] at hpoint
          simp [hb, hc, Ne.symm hpoint.1]
  rw [isHidden_ofText, beq_eq_false_iff_ne, not_iff_not]
  exact hhead.symm

theorem Language.ofPath?_below {base : String} {names : List String} {name : String}
    (hnames : ∀ name ∈ names, Path.IsName name) (hlast : names.getLast? = some name) :
    Language.ofPath? (Path.below base names) =
      (Path.nameExtension? name).bind Language.ofExtension? := by
  obtain ⟨front, rfl⟩ := List.getLast?_eq_some_iff.1 hlast
  have hname : Path.IsName name := hnames name (by simp)
  rw [Language.ofPath?, Path.extension?, Path.below_append]
  exact congrArg (fun n => (Option.bind n Path.nameExtension?).bind Language.ofExtension?)
    (Path.fileName?_join hname)

/-- The language of a path is that of its last name. -/
theorem Language.isSome_ofPath?_below {base : String} {names : List String} (hne : names ≠ [])
    (hnames : ∀ name ∈ names, Path.IsName name) :
    (Language.ofPath? (Path.below base names)).isSome ↔
      ∃ name ∈ (names.map FileName.ofText).getLast?, ∃ extension ∈ name.extension?,
        (Language.ofExtension? extension).isSome := by
  have hlast := List.getLast?_eq_some_getLast hne
  rw [ofPath?_below hnames hlast, List.getLast?_map, hlast]
  cases hextension : Path.nameExtension? (names.getLast hne) with
  | none => simp [FileName.extension?_ofText, hextension]
  | some extension => simp [FileName.extension?_ofText, hextension]

/-- A directory is no file, so names lead to each of its files. -/
theorem FileEntry.Ordered.names_of_at? {listing : Listing}
    {entries : List (FileName × FileEntry)} {names : List String}
    {content : Except String ByteArray} (hordered : (FileEntry.directory listing entries).Ordered)
    (h : (FileEntry.directory listing entries).at? (names.map .ofText) = some (.file content)) :
    names ≠ [] ∧ ∀ name ∈ names, Path.IsName name := by
  constructor
  · rintro rfl
    cases h
  · exact FileName.forall_isProper_ofText_iff.1 (hordered.at? h).1

/-! ## What a discovery finds in a directory -/

namespace Discovery

variable {files : FileSystem} {root : ProjectRoot} {input : String} {listing : Listing}
  {entries : List (FileName × FileEntry)}

theorem takesMet_all (path : String) :
    (⟨files, root, .all, []⟩ : Discovery).takesMet path = (Language.ofPath? path).isSome := by
  rw [takesMet]
  cases Language.ofPath? path <;> rfl

def scriptNames (input : String) (e : FileEntry) : List (List String) :=
  (e.visibleNames.filterMap (·.mapM FileName.text?)).filter fun names =>
    (Language.ofPath? (Path.below input names)).isSome

theorem find_directory (hlistable : (FileEntry.directory listing entries).Listable)
    (hinput : files.entry? input = some (.directory listing entries)) :
    (⟨files, root, .all, []⟩ : Discovery).find [input] =
      (scriptNames input (.directory listing entries)).map
        fun names => .file (Path.below input names) := by
  rw [find, List.flatMap_singleton, findAt, hinput]
  simp only [hlistable.meets_eq, scriptNames, List.filterMap_map, List.filter_filterMap,
    List.map_filterMap]
  congr 1
  funext names
  rw [Function.comp_apply, FileName.below?_some]
  cases names.mapM FileName.text? with
  | none => rfl
  | some texts =>
      rw [Option.map_some, ofMet?, takesMet_all, Option.filter]
      split <;> rfl

theorem mem_scriptNames (hordered : (FileEntry.directory listing entries).Ordered)
    {names : List String} :
    names ∈ scriptNames input (.directory listing entries) ↔
      (FileEntry.directory listing entries).VisibleScript (names.map .ofText) := by
  have htext : names ∈ (FileEntry.directory listing entries).visibleNames.filterMap
      (·.mapM FileName.text?) ↔
      names.map .ofText ∈ (FileEntry.directory listing entries).visibleNames := by
    simp only [List.mem_filterMap, FileName.mapM_text?_eq_some_iff, exists_eq_right]
  have hvisible : (∀ name ∈ names.map FileName.ofText, name.isHidden = false) ↔
      ∀ name ∈ names.map FileName.ofText, name.bytes.head? ≠ some FileName.point := by
    simp only [List.forall_mem_map, FileName.isHidden_ofText_eq_false_iff]
  rw [scriptNames, List.mem_filter, htext, hordered.mem_visibleNames, hvisible,
    FileEntry.VisibleScript, and_assoc]
  refine and_congr_right fun hfile => and_congr_right fun _ => ?_
  obtain ⟨content, hcontent⟩ := hfile
  obtain ⟨hne, hnames⟩ := hordered.names_of_at? hcontent
  exact Language.isSome_ofPath?_below hne hnames

theorem pairwise_scriptNames {e : FileEntry} (hordered : e.Ordered) :
    (scriptNames input e).Pairwise fun a b => a.map Text.utf8 < b.map Text.utf8 := by
  refine (hordered.pairwise_visibleNames.filterMap _ ?_).filter _
  intro a b hbefore xs hxs ys hys
  rw [FileName.mapM_text?_eq_some_iff] at hxs hys
  rwa [hxs, hys, List.map_map, List.map_map] at hbefore

theorem nodup_scriptPaths (hordered : (FileEntry.directory listing entries).Ordered) :
    ((scriptNames input (.directory listing entries)).map
      fun names => Found.file (Path.below input names)).Nodup := by
  have hnodup : (scriptNames input (.directory listing entries)).Nodup := by
    refine (pairwise_scriptNames hordered).imp fun {a b} hbefore heq => ?_
    rw [heq] at hbefore
    exact List.lt_irrefl _ hbefore
  refine hnodup.map_on fun a ha b hb heq => ?_
  obtain ⟨⟨_, hfile⟩, -⟩ := (mem_scriptNames hordered).1 ha
  obtain ⟨⟨_, hfile'⟩, -⟩ := (mem_scriptNames hordered).1 hb
  obtain ⟨hne, hnames⟩ := hordered.names_of_at? hfile
  obtain ⟨hne', hnames'⟩ := hordered.names_of_at? hfile'
  exact Path.below_injective hne hne' hnames hnames' (Found.file.inj heq)

/--
The walk of a directory finds the visible scripts below it whose names are all text.  It
finds each of them once, under the path of the input with the names behind it, in
increasing order of the names, compared name by name and byte by byte.
-/
theorem walk_finds_visible_scripts (hordered : files.top.Ordered) (root : ProjectRoot)
    (hinput : files.entry? input = some (.directory listing entries))
    (hlistable : (FileEntry.directory listing entries).Listable) :
    let d : Discovery := ⟨files, root, .all, []⟩
    ∃ found : List (List String),
      d.find [input] = found.map (fun names => .file (Path.below input names)) ∧
        (∀ names, names ∈ found ↔
          (FileEntry.directory listing entries).VisibleScript (names.map .ofText)) ∧
        found.Pairwise (fun a b => a.map Text.utf8 < b.map Text.utf8) ∧
        (d.find [input]).Nodup ∧
        ∀ names ∈ found, ∀ content,
          (FileEntry.directory listing entries).at? (names.map .ofText) = some (.file content) →
            files.entry? (Path.below input names) = some (.file content) := by
  intro d
  have hbelow : (FileEntry.directory listing entries).Ordered := by
    obtain ⟨there, -, hthere⟩ := Option.bind_eq_some_iff.1 hinput
    exact (hordered.at? hthere).2
  have hfind : d.find [input] = (scriptNames input (.directory listing entries)).map
      fun names => .file (Path.below input names) := find_directory hlistable hinput
  refine ⟨scriptNames input (.directory listing entries), hfind,
    fun names => mem_scriptNames hbelow, pairwise_scriptNames hbelow, ?_,
    fun names _ content hcontent => ?_⟩
  · rw [hfind]
    exact nodup_scriptPaths hbelow
  · obtain ⟨hne, hnames⟩ := hbelow.names_of_at? hcontent
    exact FileSystem.entry?_below hinput hne hnames hcontent

/-- A hidden file, a link, names that begin alike and a file whose name is no text. -/
def hiddenEntries : FileEntry :=
  .directory .whole [(".x.rs", .file (.ok .empty)),
    ("a", .directory .whole [("b.py", .file (.ok .empty)), ("c.md", .file (.ok .empty))]),
    ("a.rs", .file (.ok .empty)), ("z", .link [97]), (⟨[255, 46, 112, 121]⟩, .file (.ok .empty))]

theorem ordered_hiddenEntries : hiddenEntries.Ordered := by
  have hinner : (FileEntry.directory .whole
      [("b.py", .file (.ok .empty)), ("c.md", .file (.ok .empty))]).Ordered :=
    .directory (by decide +kernel) (by decide +kernel) (by simp [FileEntry.Ordered.file])
  refine .directory (by decide +kernel) (by decide +kernel) ?_
  simp [FileEntry.Ordered.file, FileEntry.Ordered.link, hinner]

theorem listable_hiddenEntries : hiddenEntries.Listable := by
  have hinner : (FileEntry.directory .whole
      [("b.py", .file (.ok .empty)), ("c.md", .file (.ok .empty))]).Listable :=
    .directory (by simp [FileEntry.Listable.file])
  refine .directory ?_
  simp [FileEntry.Listable.file, FileEntry.Listable.link, hinner]

/-- Files below the name `a` and the file `a.rs` are found, each at its place. -/
theorem walk_hiddenEntries :
    let files : FileSystem :=
      { top := .directory .whole [(".cfg", hiddenEntries)], workingDirectory := [] }
    files.top.Ordered ∧ files.entry? ".cfg" = some hiddenEntries ∧ hiddenEntries.Listable ∧
      ∀ root, ∃ found : List (List String),
        (⟨files, root, .all, []⟩ : Discovery).find [".cfg"] =
            found.map (fun names => .file (Path.below ".cfg" names)) ∧
          ["a", "b.py"] ∈ found ∧ ["a.rs"] ∈ found ∧ [".x.rs"] ∉ found ∧ ["a", "c.md"] ∉ found ∧
          ["z", "b.py"] ∉ found ∧ found.Pairwise fun a b => a.map Text.utf8 < b.map Text.utf8 := by
  intro files
  have hordered : files.top.Ordered :=
    .directory (by decide +kernel) (List.pairwise_singleton _ _)
      (by simpa using ordered_hiddenEntries)
  have hinput : files.entry? ".cfg" = some hiddenEntries :=
    FileSystem.entry?_of_names [] [".cfg"] (by decide +kernel) (by decide +kernel) (by simp)
      (by decide +kernel) rfl (by simp [hiddenEntries]) rfl
  refine ⟨hordered, hinput, listable_hiddenEntries, fun root => ?_⟩
  obtain ⟨found, hfind, hmem, hpairwise, -⟩ :=
    walk_finds_visible_scripts hordered root hinput listable_hiddenEntries
  refine ⟨found, hfind, (hmem _).2 ?_, (hmem _).2 ?_, fun h => ?_, fun h => ?_, fun h => ?_,
    hpairwise⟩
  · exact ⟨⟨_, rfl⟩, by decide +kernel, "b.py", rfl, "py", by decide +kernel, by decide +kernel⟩
  · exact ⟨⟨_, rfl⟩, by decide +kernel, "a.rs", rfl, "rs", by decide +kernel, by decide +kernel⟩
  · exact ((hmem _).1 h).2.1 ".x.rs" List.mem_cons_self (by decide +kernel)
  · obtain ⟨-, -, name, hname, extension, hextension, hlanguage⟩ := (hmem _).1 h
    have hmd : (FileName.ofText "c.md").extension? = some "md" := by decide +kernel
    rw [Option.mem_def, ← show FileName.ofText "c.md" = name from Option.some.inj hname,
      hmd] at hextension
    rw [← Option.some.inj hextension] at hlanguage
    revert hlanguage
    decide +kernel
  · obtain ⟨⟨content, hcontent⟩, -⟩ := (hmem _).1 h
    cases hcontent

/-- A visible script is left out if its name is no text. -/
theorem walk_leaves_out_foreign_name :
    let foreign : FileName := ⟨[97, 255, 46, 112, 121]⟩
    let d : FileEntry := .directory .whole [(foreign, .file (.ok .empty))]
    let files : FileSystem := { top := .directory .whole [("d", d)], workingDirectory := [] }
    files.top.Ordered ∧ files.top.Listable ∧ files.entry? "d" = some d ∧
      d.VisibleScript [foreign] ∧
      (⟨files, ProjectRoot.ofPath files ".", .all, []⟩ : Discovery).find ["d"] = [] := by
  intro foreign d files
  have hordered : d.Ordered :=
    .directory (by decide +kernel) (List.pairwise_singleton _ _) (by simp [FileEntry.Ordered.file])
  have hlistable : d.Listable := .directory (by simp [FileEntry.Listable.file])
  have hinput : files.entry? "d" = some d :=
    FileSystem.entry?_of_names [] ["d"] (by decide +kernel) (by decide +kernel) (by simp)
      (by decide +kernel) rfl (by simp [d]) rfl
  refine ⟨.directory (by decide +kernel) (List.pairwise_singleton _ _) (by simpa using hordered),
    .directory (by simpa using hlistable), hinput, ?_, ?_⟩
  · exact ⟨⟨_, rfl⟩, by decide +kernel, foreign, rfl, "py", by decide +kernel, by decide +kernel⟩
  · rw [find_directory hlistable hinput]
    have hnone : scriptNames "d" d = [] := by decide +kernel
    rw [hnone]
    rfl

end Discovery

end TreeLint

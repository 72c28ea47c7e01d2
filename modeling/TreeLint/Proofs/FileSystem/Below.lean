import TreeLint.Proofs.Path.Relative

/-!
# Paths below a directory

A path that goes on with names leads from where its beginning leads down to these names, if
no link stands on the way.  Different names make different paths, and the last of them is
the file name.
-/

namespace TreeLint

namespace Path

def below (base : String) (names : List String) : String :=
  names.foldl join base

def stem (base : String) : List Char :=
  if base.isEmpty || base.toList.getLast? == some '/' then base.toList else base.toList ++ ['/']

theorem below_append (base : String) (xs ys : List String) :
    below base (xs ++ ys) = below (below base xs) ys :=
  List.foldl_append

theorem toList_join {base name : String} (h : IsName name) :
    (join base name).toList = stem base ++ name.toList := by
  rw [join, stem, if_neg (by simp [h.isAbsolute])]
  split
  · exact String.toList_append
  · rw [String.toList_append, String.toList_append]
    rfl

theorem stem_join {base name : String} (h : IsName name) :
    stem (join base name) = stem base ++ name.toList ++ ['/'] := by
  have hempty : (join base name).isEmpty = false := by
    rw [Bool.eq_false_iff]
    intro hempty
    have htext : (join base name).toList = stem base ++ name.toList := toList_join h
    rw [String.isEmpty_iff.1 hempty] at htext
    exact h.ne_nil (List.append_eq_nil_iff.1 htext.symm).2
  have hlast : ¬ (join base name).toList.getLast? = some '/' := by
    rw [toList_join h, List.getLast?_append, List.getLast?_eq_some_getLast h.ne_nil]
    intro hslash
    have hmem := List.getLast_mem h.ne_nil
    rw [Option.some.inj hslash] at hmem
    exact h.no_slash hmem
  rw [stem, if_neg (by simp [hempty, hlast]), toList_join h]

theorem toList_below {base : String} {names : List String} (hne : names ≠ [])
    (h : ∀ name ∈ names, IsName name) :
    (below base names).toList = stem base ++ ['/'].intercalate (names.map String.toList) := by
  induction names generalizing base with
  | nil => exact absurd rfl hne
  | cons name names ih =>
      obtain ⟨hname, hnames⟩ := List.forall_mem_cons.1 h
      cases names with
      | nil => simpa [below] using toList_join hname
      | cons next names =>
          have hrest : (below (join base name) (next :: names)).toList =
              stem (join base name) ++ ['/'].intercalate ((next :: names).map String.toList) :=
            ih (List.cons_ne_nil next names) hnames
          rw [below, List.foldl_cons]
          rw [below] at hrest
          rw [hrest, stem_join hname]
          simp

/-- A path with names behind it begins as it did. -/
theorem isAbsolute_below {base : String} {names : List String} (hbase : base.isEmpty = false)
    (hne : names ≠ []) (h : ∀ name ∈ names, IsName name) :
    isAbsolute (below base names) = isAbsolute base ∧ (below base names).isEmpty = false := by
  have hchars : base.toList ≠ [] := by simpa using hbase
  have hstem : ∃ more, stem base = base.toList ++ more := by
    unfold stem
    split
    · exact ⟨[], (List.append_nil _).symm⟩
    · exact ⟨['/'], rfl⟩
  obtain ⟨more, hmore⟩ := hstem
  have htext : (below base names).toList =
      stem base ++ ['/'].intercalate (names.map String.toList) := toList_below hne h
  rw [hmore, List.append_assoc] at htext
  constructor
  · obtain ⟨c, cs, hcs⟩ := List.exists_cons_of_ne_nil hchars
    rw [isAbsolute, isAbsolute, htext, hcs]
    rfl
  · rw [Bool.eq_false_iff]
    intro hempty
    rw [String.isEmpty_iff.1 hempty] at htext
    exact hchars (List.append_eq_nil_iff.1 htext.symm).1

theorem parts_intercalate {names : List String} (hne : names ≠ [])
    (h : ∀ name ∈ names, IsName name) :
    parts (['/'].intercalate (names.map String.toList)) = names.map String.toList := by
  rw [← toList_ofComponents h, parts_ofComponents hne h]

theorem below_injective {base : String} {xs ys : List String} (hxs : xs ≠ []) (hys : ys ≠ [])
    (hx : ∀ name ∈ xs, IsName name) (hy : ∀ name ∈ ys, IsName name)
    (h : below base xs = below base ys) : xs = ys := by
  have htext := congrArg String.toList h
  rw [toList_below hxs hx, toList_below hys hy] at htext
  have hparts := congrArg parts (List.append_cancel_left htext)
  rw [parts_intercalate hxs hx, parts_intercalate hys hy] at hparts
  exact (List.map_inj_right fun _ _ heq => String.toList_inj.1 heq).1 hparts

theorem getLast?_components {path : String} {ps : List (List Char)} {name : String}
    (hname : IsName name) (h : parts path.toList = ps ++ [name.toList]) :
    (components path).getLast? = some (.name name) := by
  have hbody : ((parts path.toList).filterMap component?).getLast? = some (.name name) := by
    rw [h, List.filterMap_append, List.filterMap_cons_some hname.component?, List.filterMap_nil,
      List.getLast?_concat]
  have hcons : ∀ c : Component,
      (c :: (parts path.toList).filterMap component?).getLast? = some (.name name) := by
    intro c
    rw [List.getLast?_cons, hbody]
    rfl
  unfold components
  dsimp only
  split
  · exact hcons _
  · exact hcons _
  · exact hbody

/-- A text before a name that it does not run into. -/
theorem stem_cases (base : String) : stem base = [] ∨ ∃ front, stem base = front ++ ['/'] := by
  unfold stem
  by_cases hempty : base.isEmpty = true
  · rw [if_pos (by simp [hempty]), String.isEmpty_iff.1 hempty]
    exact .inl rfl
  · by_cases hslash : base.toList.getLast? = some '/'
    · rw [if_pos (by simp [hslash])]
      obtain ⟨front, hfront⟩ := List.getLast?_eq_some_iff.1 hslash
      exact .inr ⟨front, hfront⟩
    · rw [if_neg (by simp [hempty, hslash])]
      exact .inr ⟨_, rfl⟩

theorem fileName?_join {base name : String} (h : IsName name) :
    fileName? (join base name) = some name := by
  have hparts : ∃ ps, parts (join base name).toList = ps ++ [name.toList] := by
    rw [toList_join h]
    rcases stem_cases base with hstem | ⟨front, hstem⟩
    · exact ⟨[], by rw [hstem, List.nil_append, h.parts, List.nil_append]⟩
    · refine ⟨parts front, ?_⟩
      rw [hstem, List.append_assoc, List.singleton_append, parts_append_slash, h.parts]
  obtain ⟨ps, hps⟩ := hparts
  simp only [fileName?, getLast?_components h hps]

end Path

/-! ## Lookups -/

theorem FileEntry.at?_append (e : FileEntry) (xs ys : List FileName) :
    e.at? (xs ++ ys) = (e.at? xs).bind (·.at? ys) := by
  induction xs generalizing e with
  | nil => rfl
  | cons name xs ih =>
      rw [List.cons_append, FileEntry.at?, FileEntry.at?]
      cases e.entries.lookup name with
      | none => rfl
      | some child => exact ih child

/-- Only a directory has something below it. -/
theorem FileEntry.at?_cons_eq_some {e found : FileEntry} {name : FileName}
    {names : List FileName} (h : e.at? (name :: names) = some found) :
    ∃ listing entries child, e = .directory listing entries ∧
      entries.lookup name = some child ∧ child.at? names = some found := by
  rw [FileEntry.at?] at h
  cases hchild : e.entries.lookup name with
  | none =>
      rw [hchild] at h
      cases h
  | some child =>
      rw [hchild] at h
      cases e with
      | file content => cases hchild
      | link target => cases hchild
      | directory listing entries => exact ⟨listing, entries, child, rfl, hchild, h⟩

theorem FileEntry.ne_link_of_at? {e found : FileEntry} {names : List FileName}
    (h : e.at? names = some found) (hfound : ∀ target, found ≠ .link target)
    (target : List UInt8) : e ≠ .link target := by
  rintro rfl
  cases names with
  | nil => exact hfound target (Option.some.inj h).symm
  | cons name names =>
      obtain ⟨listing, entries, child, hlink, -⟩ := FileEntry.at?_cons_eq_some h
      cases hlink

namespace FileSystem

/-- Parts of a path are followed one after another, with the links left over from the first. -/
theorem follow_append (top : FileEntry) (links : Nat) (here ps qs : List FileName) :
    ∃ left, follow top links here (ps ++ qs) =
      (follow top links here ps).bind fun there => follow top left there qs := by
  fun_induction follow top links here ps with
  | case1 links here => exact ⟨links, rfl⟩
  | case2 links here part rest listing entries hhere hstay ih =>
      obtain ⟨left, ih⟩ := ih
      refine ⟨left, ?_⟩
      rw [List.cons_append, follow, hhere]
      simp only [hstay, if_true, ih]
  | case3 links here part rest listing entries hhere hstay hup ih =>
      obtain ⟨left, ih⟩ := ih
      refine ⟨left, ?_⟩
      rw [List.cons_append, follow, hhere]
      simp only [if_neg hstay, hup, if_true, ih]
  | case4 links here part rest listing entries hhere hstay hup hnone =>
      refine ⟨0, ?_⟩
      rw [List.cons_append, follow, hhere]
      simp only [if_neg hstay, if_neg hup, hnone, Option.bind_none]
  | case5 here part rest listing entries hhere hstay hup target hlink =>
      refine ⟨0, ?_⟩
      rw [List.cons_append, follow, hhere]
      simp only [if_neg hstay, if_neg hup, hlink, Option.bind_none]
  | case6 here part rest listing entries hhere hstay hup target links hlink hempty =>
      refine ⟨0, ?_⟩
      rw [List.cons_append, follow, hhere]
      simp only [if_neg hstay, if_neg hup, hlink, hempty, if_true, Option.bind_none]
  | case7 here part rest listing entries hhere hstay hup target links hlink hempty start ih =>
      obtain ⟨left, ih⟩ := ih
      refine ⟨left, ?_⟩
      rw [List.cons_append, follow, hhere]
      simp only [if_neg hstay, if_neg hup, hlink, if_neg hempty]
      rw [← ih, List.append_assoc]
      rfl
  | case8 here part rest listing entries hhere hstay hup val links hzero hsucc hval ih =>
      obtain ⟨left, ih⟩ := ih
      refine ⟨left, ?_⟩
      rw [List.cons_append, follow, hhere]
      simp only [if_neg hstay, if_neg hup, hval]
      cases val with
      | file content => exact ih
      | directory listing below => exact ih
      | link target =>
          cases links with
          | zero => exact (hzero target rfl rfl).elim
          | succ links => exact (hsucc target links rfl rfl).elim
  | case9 links here part rest hhere =>
      refine ⟨0, ?_⟩
      rw [List.cons_append, follow]
      split
      · rename_i listing entries hdirectory
        exact (hhere listing entries hdirectory).elim
      · rfl

theorem follow_stay {top : FileEntry} {here : List FileName} {listing : Listing}
    {entries : List (FileName × FileEntry)}
    (hhere : top.at? here = some (.directory listing entries)) {part : FileName} (hstay : part.stays = true) (links : Nat) (rest : List FileName) :
    follow top links here (part :: rest) = follow top links here rest := by
  rw [follow, hhere]
  simp only [hstay, if_true]

/-- A proper name that is listed and is no link leads to its entry. -/
theorem follow_name {top : FileEntry} {here : List FileName} {listing : Listing}
    {entries : List (FileName × FileEntry)} {name : FileName} {child : FileEntry}
    (hhere : top.at? here = some (.directory listing entries)) (hname : name.IsProper)
    (hchild : entries.lookup name = some child) (hlink : ∀ target, child ≠ .link target)
    (links : Nat) (rest : List FileName) :
    follow top links here (name :: rest) = follow top links (here ++ [name]) rest := by
  rw [follow, hhere]
  simp only [hname.moves, hname.descends, hchild, Bool.false_eq_true, if_false]
  cases child with
  | file content => rfl
  | directory listing below => rfl
  | link target => exact (hlink target rfl).elim

/-- Names lead down to what stands behind them, if that is no link. -/
theorem follow_names {top found : FileEntry} (hfound : ∀ target, found ≠ .link target)
    {names : List FileName} (hnames : ∀ name ∈ names, name.IsProper) {here : List FileName}
    (h : top.at? (here ++ names) = some found) (links : Nat) :
    follow top links here names = some (here ++ names) := by
  induction names generalizing here with
  | nil => rw [follow, List.append_nil]
  | cons name names ih =>
      obtain ⟨hname, hrest⟩ := List.forall_mem_cons.1 hnames
      have hbelow : top.at? ((here ++ [name]) ++ names) = some found := by
        rwa [List.append_assoc, List.singleton_append]
      rw [FileEntry.at?_append, Option.bind_eq_some_iff] at h
      obtain ⟨e, hhere, he⟩ := h
      obtain ⟨listing, entries, child, rfl, hchild, hfile⟩ := FileEntry.at?_cons_eq_some he
      rw [follow_name hhere hname hchild (FileEntry.ne_link_of_at? hfile hfound),
        ih hrest hbelow, List.append_assoc, List.singleton_append]

/-- A path of names, after parts that stay, denotes what stands behind the names. -/
theorem entry?_of_names {fs : FileSystem} {path : String} (stays names : List FileName)
    {listing : Listing} {entries : List (FileName × FileEntry)} {found : FileEntry}
    (hpath : path.isEmpty = false) (hparts : FileName.parts (Text.utf8 path) = stays ++ names)
    (hstays : ∀ part ∈ stays, part.stays = true) (hnames : ∀ name ∈ names, name.IsProper)
    (hstart : fs.top.at? (fs.start path) = some (.directory listing entries))
    (hfound : ∀ target, found ≠ .link target)
    (h : fs.top.at? (fs.start path ++ names) = some found) : fs.entry? path = some found := by
  have hfollow : follow fs.top linkLimit (fs.start path) (stays ++ names) =
      some (fs.start path ++ names) := by
    clear hparts
    induction stays with
    | nil => exact follow_names hfound hnames h linkLimit
    | cons part stays ih =>
        obtain ⟨hpart, hstays⟩ := List.forall_mem_cons.1 hstays
        rw [List.cons_append, follow_stay hstart hpart]
        exact ih hstays
  have hlocate : fs.locate? path = some (fs.start path ++ names) := by
    rw [locate?, if_neg (by simp [hpath]), hparts, hfollow]
  rw [FileSystem.entry?, hlocate]
  exact h

/-- A slash behind a path changes nothing about where the path leads. -/
theorem follow_of_slash {top : FileEntry} {links : Nat} {here there ps : List FileName}
    (h : follow top links here (ps ++ [.ofText ""]) = some there) :
    follow top links here ps = some there := by
  obtain ⟨left, hleft⟩ := follow_append top links here ps [.ofText ""]
  rw [hleft, Option.bind_eq_some_iff] at h
  obtain ⟨middle, hmiddle, hlast⟩ := h
  rw [follow] at hlast
  split at hlast
  · rw [if_pos (by decide), follow] at hlast
    rwa [← Option.some.inj hlast]
  · cases hlast

/-- The parts of a path, as far as they matter, and then the names behind it. -/
theorem follow_below {top : FileEntry} {links : Nat} {here there : List FileName}
    {input : String} {names : List String} (hinput : input.isEmpty = false) (hne : names ≠ [])
    (hnames : ∀ name ∈ names, Path.IsName name)
    (h : follow top links here (FileName.parts (Text.utf8 input)) = some there) :
    ∃ left, follow top links here (FileName.parts (Text.utf8 (Path.below input names))) =
      follow top left there (names.map .ofText) := by
  let named (parts : List (List Char)) : List FileName :=
    parts.map fun part => .ofText (String.ofList part)
  have hnamed : named (names.map String.toList) = names.map .ofText := by
    simp [named, Function.comp_def]
  rw [FileName.parts_utf8] at h
  have hsplit : ∃ front, Path.stem input = front ++ ['/'] ∧
      follow top links here (named (Path.parts front)) = some there := by
    by_cases hslash : input.toList.getLast? = some '/'
    · obtain ⟨front, hfront⟩ := List.getLast?_eq_some_iff.1 hslash
      refine ⟨front, by rw [Path.stem, if_pos (by simp [hslash]), hfront], ?_⟩
      rw [hfront, Path.parts_append_slash, List.map_append] at h
      exact follow_of_slash h
    · exact ⟨input.toList, by rw [Path.stem, if_neg (by simp [hinput, hslash])], h⟩
  obtain ⟨front, hstem, hfront⟩ := hsplit
  obtain ⟨left, hleft⟩ := follow_append top links here (named (Path.parts front))
    (names.map .ofText)
  refine ⟨left, ?_⟩
  rw [hfront, Option.bind_some] at hleft
  rw [FileName.parts_utf8, Path.toList_below hne hnames, hstem, List.append_assoc,
    List.singleton_append, Path.parts_append_slash, Path.parts_intercalate hne hnames,
    List.map_append, ← hleft, ← hnamed]

/-- Where names below a directory lead to a regular file, so does the path with these names. -/
theorem entry?_below {fs : FileSystem} {input : String} {e : FileEntry} {names : List String}
    {content : Except String ByteArray} (hinput : fs.entry? input = some e) (hne : names ≠ [])
    (hnames : ∀ name ∈ names, Path.IsName name)
    (h : e.at? (names.map .ofText) = some (.file content)) :
    fs.entry? (Path.below input names) = some (.file content) := by
  obtain ⟨there, hlocate, hthere⟩ := Option.bind_eq_some_iff.1 hinput
  have hproper := FileName.forall_isProper_ofText_iff.2 hnames
  have hfile : fs.top.at? (there ++ names.map .ofText) = some (.file content) := by
    rw [FileEntry.at?_append, hthere]
    exact h
  unfold locate? at hlocate
  split at hlocate
  · cases hlocate
  · rename_i hempty
    rw [Bool.not_eq_true] at hempty
    obtain ⟨left, hleft⟩ := follow_below hempty hne hnames hlocate
    obtain ⟨habsolute, hfull⟩ := Path.isAbsolute_below hempty hne hnames
    have hfound : fs.locate? (Path.below input names) = some (there ++ names.map .ofText) := by
      rw [locate?, if_neg (by simp [hfull]), start, habsolute]
      exact hleft.trans (follow_names (by simp) hproper hfile left)
    rw [FileSystem.entry?, hfound]
    exact hfile

end FileSystem

end TreeLint

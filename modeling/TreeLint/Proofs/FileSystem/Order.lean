import TreeLint.Proofs.FileSystem.Names
import TreeLint.Snapshot

/-!
# Ordered file trees

A directory lists proper names, each before the next in the order of their bytes.  Writing
keeps a tree so, whatever is written and wherever links on the path lead.
-/

namespace TreeLint

/-! ## The order of names -/

namespace FileName

variable {a b c : FileName}

theorem before_iff : a.before b = true ↔ a.bytes < b.bytes :=
  decide_eq_true_iff

theorem ne_of_before (h : a.before b = true) : a ≠ b := by
  rintro rfl
  exact List.lt_irrefl _ (before_iff.1 h)

theorem before_trans (hab : a.before b = true) (hbc : b.before c = true) : a.before c = true :=
  before_iff.2 (List.lt_trans (before_iff.1 hab) (before_iff.1 hbc))

theorem before_of_not (hne : a ≠ b) (h : ¬ a.before b = true) : b.before a = true := by
  rw [before_iff] at h ⊢
  have hbytes : a.bytes ≠ b.bytes := fun heq => hne (congrArg mk heq)
  exact Std.lt_of_le_of_ne (List.not_lt.1 h) hbytes.symm

end FileName

namespace FileEntry

/-- Every directory in the tree lists proper names in increasing order. -/
inductive Ordered : FileEntry → Prop
  | file (content : Except String ByteArray) : Ordered (.file content)
  | link (target : List UInt8) : Ordered (.link target)
  | directory {listing : Listing} {entries : List (FileName × FileEntry)}
      (names : ∀ e ∈ entries, e.1.IsProper)
      (sorted : entries.Pairwise fun a b => a.1.before b.1 = true)
      (below : ∀ e ∈ entries, Ordered e.2) : Ordered (.directory listing entries)

theorem mem_of_lookup {entries : List (FileName × FileEntry)} {name : FileName} {child : FileEntry}
    (h : entries.lookup name = some child) : (name, child) ∈ entries := by
  obtain ⟨before, after, hentries, -⟩ := List.lookup_eq_some_iff.1 h
  rw [hentries]
  exact List.mem_append_right _ List.mem_cons_self

/-- In increasing order no name stands twice, so a lookup finds every entry. -/
theorem lookup_eq_some_iff_mem {entries : List (FileName × FileEntry)}
    (hsorted : entries.Pairwise fun a b => a.1.before b.1 = true) {name : FileName}
    {child : FileEntry} : entries.lookup name = some child ↔ (name, child) ∈ entries := by
  refine ⟨mem_of_lookup, fun hmem => ?_⟩
  obtain ⟨before, after, hentries⟩ := List.append_of_mem hmem
  refine List.lookup_eq_some_iff.2 ⟨before, after, hentries, fun e he => ?_⟩
  rw [hentries, List.pairwise_append] at hsorted
  have hbefore := hsorted.2.2 e he (name, child) List.mem_cons_self
  simpa using (FileName.ne_of_before hbefore).symm

theorem Ordered.empty : (FileEntry.directory .whole []).Ordered :=
  .directory (by simp) .nil (by simp)

theorem Ordered.entries {e : FileEntry} (h : e.Ordered) :
    (FileEntry.directory e.listing e.entries).Ordered := by
  cases h with
  | file content => exact .empty
  | link target => exact .empty
  | directory names sorted below => exact .directory names sorted below

theorem Ordered.lookup {e child : FileEntry} {name : FileName} (h : e.Ordered)
    (hchild : e.entries.lookup name = some child) : name.IsProper ∧ child.Ordered := by
  have hmem := mem_of_lookup hchild
  cases h.entries with
  | directory names sorted below => exact ⟨names _ hmem, below _ hmem⟩

theorem Ordered.at? {e found : FileEntry} {names : List FileName} (h : e.Ordered)
    (hfound : e.at? names = some found) :
    (∀ name ∈ names, name.IsProper) ∧ found.Ordered := by
  induction names generalizing e with
  | nil =>
      cases hfound
      exact ⟨by simp, h⟩
  | cons name rest ih =>
      rw [FileEntry.at?] at hfound
      cases hchild : e.entries.lookup name with
      | none =>
          rw [hchild] at hfound
          cases hfound
      | some child =>
          rw [hchild] at hfound
          obtain ⟨hname, hordered⟩ := h.lookup hchild
          obtain ⟨hnames, hbelow⟩ := ih hordered hfound
          exact ⟨List.forall_mem_cons.2 ⟨hname, hnames⟩, hbelow⟩

/-! ## Insertions -/

theorem mem_insertOrdered {name : FileName} {e : FileEntry} {entries : List (FileName × FileEntry)}
    {x : FileName × FileEntry} (h : x ∈ insertOrdered name e entries) :
    x = (name, e) ∨ x ∈ entries := by
  induction entries with
  | nil => exact .inl (List.mem_singleton.1 h)
  | cons first rest ih =>
      obtain ⟨n, y⟩ := first
      rw [insertOrdered] at h
      split at h
      · rcases List.mem_cons.1 h with hx | hx
        · exact .inl hx
        · exact .inr (List.mem_cons_of_mem _ hx)
      · split at h
        · exact List.mem_cons.1 h
        · rcases List.mem_cons.1 h with hx | hx
          · exact .inr (hx ▸ List.mem_cons_self)
          · exact (ih hx).imp_right (List.mem_cons_of_mem _)

theorem pairwise_insertOrdered {name : FileName} {e : FileEntry}
    {entries : List (FileName × FileEntry)}
    (h : entries.Pairwise fun a b => a.1.before b.1 = true) :
    (insertOrdered name e entries).Pairwise fun a b => a.1.before b.1 = true := by
  induction entries with
  | nil => exact List.pairwise_singleton _ _
  | cons first rest ih =>
      obtain ⟨n, y⟩ := first
      obtain ⟨hfirst, hrest⟩ := List.pairwise_cons.1 h
      rw [insertOrdered]
      by_cases hsame : n = name
      · rw [if_pos hsame, ← hsame]
        exact List.pairwise_cons.2 ⟨hfirst, hrest⟩
      · rw [if_neg hsame]
        by_cases hbefore : name.before n = true
        · rw [if_pos hbefore]
          refine List.pairwise_cons.2 ⟨fun x hx => ?_, h⟩
          rcases List.mem_cons.1 hx with rfl | hx
          · exact hbefore
          · exact FileName.before_trans hbefore (hfirst x hx)
        · rw [if_neg hbefore]
          refine List.pairwise_cons.2 ⟨fun x hx => ?_, ih hrest⟩
          rcases mem_insertOrdered hx with rfl | hx
          · exact FileName.before_of_not (Ne.symm hsame) hbefore
          · exact hfirst x hx

theorem Ordered.insertOrdered {name : FileName} {e : FileEntry} {listing : Listing}
    {entries : List (FileName × FileEntry)} (hname : name.IsProper) (he : e.Ordered)
    (h : (FileEntry.directory listing entries).Ordered) :
    (FileEntry.directory listing (FileEntry.insertOrdered name e entries)).Ordered := by
  cases h with
  | directory names sorted below =>
      refine .directory (fun x hx => ?_) (pairwise_insertOrdered sorted) (fun x hx => ?_)
      · rcases mem_insertOrdered hx with rfl | hx
        · exact hname
        · exact names x hx
      · rcases mem_insertOrdered hx with rfl | hx
        · exact he
        · exact below x hx

theorem Ordered.insert {e new : FileEntry} {names : List FileName} (h : e.Ordered)
    (hnew : new.Ordered) (hnames : ∀ name ∈ names, name.IsProper) :
    (e.insert new names).Ordered := by
  induction names generalizing e with
  | nil => exact hnew
  | cons name rest ih =>
      obtain ⟨hname, hrest⟩ := List.forall_mem_cons.1 hnames
      have hchild : ((e.entries.lookup name).getD (.directory .whole [])).Ordered := by
        cases hlookup : e.entries.lookup name with
        | none => exact .empty
        | some child => exact (h.lookup hlookup).2
      exact .insertOrdered hname (ih hchild hrest) h.entries

end FileEntry

/-! ## File systems -/

namespace FileSystem

/-- The tree is ordered, and the working directory is reached over proper names. -/
structure WellFormed (fs : FileSystem) : Prop where
  ordered : fs.top.Ordered
  names : ∀ name ∈ fs.workingDirectory, name.IsProper

/-- A path is followed from the top or from where it is named. -/
theorem isProper_start {here : List FileName} (h : ∀ name ∈ here, name.IsProper)
    (absolute : Prop) [Decidable absolute] :
    ∀ name ∈ if absolute then [] else here, name.IsProper := by
  by_cases habsolute : absolute
  · simp [habsolute]
  · simpa [habsolute] using h

theorem isProper_followNew {top : FileEntry} {links : Nat} {here parts : List FileName}
    (hhere : ∀ name ∈ here, name.IsProper)
    (hparts : ∀ part ∈ parts, FileName.slash ∉ part.bytes) :
    ∀ name ∈ followNew top links here parts, name.IsProper := by
  fun_induction followNew top links here parts with
  | case1 => exact hhere
  | case2 links here part rest hstay ih =>
      exact ih hhere (List.forall_mem_cons.1 hparts).2
  | case3 links here part rest hstay hup ih =>
      exact ih (fun name h => hhere name ((List.dropLast_sublist here).subset h))
        (List.forall_mem_cons.1 hparts).2
  | case4 here part rest hstay hup there target links hlink start ih =>
      exact ih (isProper_start hhere _) (List.forall_mem_append.2
        ⟨FileName.no_slash_of_mem_parts, (List.forall_mem_cons.1 hparts).2⟩)
  | case5 here part rest hstay hup there links hlink ih =>
      have hthere : FileName.advance here part = there := by
        rw [FileName.advance, if_neg hstay, if_neg hup]
      refine ih (fun name h => ?_) (List.forall_mem_cons.1 hparts).2
      rw [← hthere] at h
      exact FileName.isProper_advance hhere (List.forall_mem_cons.1 hparts).1 name h

theorem WellFormed.put {fs : FileSystem} (h : fs.WellFormed) (path : String) (count : Nat)
    {e : FileEntry} (he : e.Ordered) : (fs.put path count e).WellFormed := by
  have hparts : ∀ part ∈ (FileName.parts (Text.utf8 path)).take count,
      FileName.slash ∉ part.bytes :=
    fun part hpart => FileName.no_slash_of_mem_parts part (List.mem_of_mem_take hpart)
  exact ⟨h.ordered.insert he (isProper_followNew (isProper_start h.names _) hparts), h.names⟩

theorem WellFormed.makeParents {fs : FileSystem} (h : fs.WellFormed) (path : String) :
    (fs.makeParents path).WellFormed := by
  have hstep : ∀ (counts : List Nat) (fs : FileSystem), fs.WellFormed →
      (counts.foldl (fun fs n => if (fs.top.at? (fs.destination path n)).isSome then fs
        else fs.put path n (.directory .whole [])) fs).WellFormed := by
    intro counts
    induction counts with
    | nil => exact fun _ hfs => hfs
    | cons n counts ih =>
        intro fs hfs
        rw [List.foldl_cons]
        split
        · exact ih _ hfs
        · exact ih _ (hfs.put path n .empty)
  exact hstep _ fs h

/-- A file system that is written to stays ordered. -/
theorem WellFormed.write {fs : FileSystem} (h : fs.WellFormed) (path : String) {e : FileEntry}
    (he : e.Ordered) : (fs.write path e).WellFormed := by
  unfold FileSystem.write
  split
  · exact h
  · exact (h.makeParents path).put path _ he

end FileSystem

namespace Snapshot

theorem ordered_entryOfJson? {j : Json} {e : FileEntry} (h : entryOfJson? j = some e) :
    e.Ordered := by
  unfold entryOfJson? at h
  split at h
  · obtain ⟨s, -, rfl⟩ := Option.map_eq_some_iff.1 h
    exact .file _
  · simp only [Option.bind_eq_bind, Option.bind_eq_some_iff, Option.pure_def] at h
    obtain ⟨_, -, _, -, he⟩ := h
    cases he
    exact .file _
  · obtain ⟨target, -, rfl⟩ := Option.map_eq_some_iff.1 h
    exact .link _
  · cases h
    exact .empty

theorem wellFormed_add? {s s' : Snapshot} {j : Json} (h : s.files.WellFormed)
    (hadd : s.add? j = some s') : s'.files.WellFormed := by
  simp only [add?, Option.bind_eq_bind, Option.bind_eq_some_iff, Option.pure_def] at hadd
  obtain ⟨_, -, path, -, e, he, _, -, hs⟩ := hadd
  cases hs
  exact h.write path (ordered_entryOfJson? he)

/-- The files of a snapshot are ordered. -/
theorem wellFormed_ofJson? {workingDirectory : List String} {j : Json} {s : Snapshot}
    (hnames : ∀ name ∈ workingDirectory, Path.IsName name)
    (h : ofJson? workingDirectory j = some s) : s.files.WellFormed := by
  have hproper := FileName.forall_isProper_ofText_iff.2 hnames
  have hempty : (empty workingDirectory).files.WellFormed :=
    ⟨FileEntry.Ordered.insert .empty .empty hproper, hproper⟩
  have hfold : ∀ (js : List Json) (start : Snapshot), start.files.WellFormed →
      js.foldlM add? start = some s → s.files.WellFormed := by
    intro js
    induction js with
    | nil =>
        intro start hstart hs
        cases hs
        exact hstart
    | cons j js ih =>
        intro start hstart hs
        rw [List.foldlM_cons, Option.bind_eq_bind, Option.bind_eq_some_iff] at hs
        obtain ⟨next, hnext, hs⟩ := hs
        exact ih next (wellFormed_add? hstart hnext) hs
  simp only [ofJson?, Option.bind_eq_bind, Option.bind_eq_some_iff] at h
  obtain ⟨js, -, hs⟩ := h
  exact hfold js _ hempty hs

end Snapshot

end TreeLint

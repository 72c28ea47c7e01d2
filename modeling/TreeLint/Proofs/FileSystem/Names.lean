import TreeLint.FileName
import TreeLint.Proofs.Data.List
import TreeLint.Proofs.Path.Folding

/-!
# Names and their texts

A file system splits paths and names by bytes, the rest of the program by characters.  Both
see the same parts, the same way down and the same extensions, since no character but `/`
and `.` is written with their bytes.
-/

namespace TreeLint

/-! ## Bytes of characters -/

namespace Text

/-- A byte below 128 is a character of its own and no part of another one. -/
theorem utf8EncodeChar_of_mem {c : Char} {b : UInt8} (hb : b.toNat < 128)
    (h : b ∈ String.utf8EncodeChar c) : String.utf8EncodeChar c = [b] := by
  have hhigh : ∀ n, 128 ≤ n → n < 256 → b ≠ UInt8.ofNat n := by
    rintro n hn hlt rfl
    rw [UInt8.toNat_ofNat_of_lt' hlt] at hb
    omega
  unfold String.utf8EncodeChar at h ⊢
  dsimp only at h ⊢
  split at h
  · rename_i hsmall
    rw [if_pos hsmall, List.mem_singleton.1 h]
  · split at h
    · simp only [List.mem_cons, List.not_mem_nil, or_false] at h
      rcases h with h | h <;> exact absurd h (hhigh _ (by omega) (by omega))
    · split at h
      · simp only [List.mem_cons, List.not_mem_nil, or_false] at h
        rcases h with h | h | h <;> exact absurd h (hhigh _ (by omega) (by omega))
      · simp only [List.mem_cons, List.not_mem_nil, or_false] at h
        rcases h with h | h | h | h <;> exact absurd h (hhigh _ (by omega) (by omega))

theorem utf8_ofList (cs : List Char) :
    utf8 (String.ofList cs) = cs.flatMap String.utf8EncodeChar := by
  rw [utf8, String.toList_ofList]

theorem flatMap_utf8EncodeChar_inj {cs ds : List Char} :
    cs.flatMap String.utf8EncodeChar = ds.flatMap String.utf8EncodeChar ↔ cs = ds := by
  rw [← utf8_ofList, ← utf8_ofList, utf8_inj, String.ofList_inj]

/-- A character other than an ASCII one is written without the byte of that one. -/
theorem not_mem_utf8EncodeChar {c d : Char} {b : UInt8} (hb : b.toNat < 128)
    (hd : String.utf8EncodeChar d = [b]) (h : c ≠ d) : b ∉ String.utf8EncodeChar c := by
  intro hmem
  have hbytes : [c].flatMap String.utf8EncodeChar = [d].flatMap String.utf8EncodeChar := by
    simp [utf8EncodeChar_of_mem hb hmem, hd]
  exact h (List.singleton_inj.1 (flatMap_utf8EncodeChar_inj.1 hbytes))

end Text

namespace FileName

/-! ## Parts -/

theorem pieces_flatMap (cs : List Char) :
    Text.pieces slash (cs.flatMap String.utf8EncodeChar) =
      (Path.parts cs).map (·.flatMap String.utf8EncodeChar) := by
  induction cs with
  | nil => rfl
  | cons c cs ih =>
      rw [Path.parts, List.flatMap_cons, Text.pieces]
      by_cases hslash : c = '/'
      · subst hslash
        rw [if_pos rfl, List.map_cons]
        exact congrArg ([] :: ·) ih
      · have hbyte : slash ∉ String.utf8EncodeChar c :=
          Text.not_mem_utf8EncodeChar (by decide) (by decide) hslash
        obtain ⟨p, ps, hps⟩ := List.exists_cons_of_ne_nil (Path.parts_ne_nil cs)
        rw [if_neg hslash, Text.pieces_append_of_not_mem hbyte, ih, hps]
        rw [Path.parts] at hps
        simp [hps]

theorem parts_utf8 (path : String) :
    parts (Text.utf8 path) =
      (Path.parts path.toList).map fun part => ofText (String.ofList part) := by
  rw [parts, Text.utf8, pieces_flatMap, List.map_map]
  refine List.map_congr_left fun part _ => ?_
  rw [ofText, Text.utf8_ofList]
  rfl

theorem no_slash_of_mem_parts {path : List UInt8} : ∀ part ∈ parts path, slash ∉ part.bytes := by
  intro part hpart
  obtain ⟨bytes, hbytes, rfl⟩ := List.mem_map.1 hpart
  exact Text.not_mem_of_mem_pieces hbytes

/-! ## Texts of names -/

theorem mapM_text?_eq_some_iff {names : List FileName} {texts : List String} :
    names.mapM text? = some texts ↔ names = texts.map ofText := by
  induction names generalizing texts with
  | nil => simp [eq_comm]
  | cons name names ih =>
      rw [List.mapM_cons]
      constructor
      · intro h
        simp only [Option.bind_eq_bind, Option.bind_eq_some_iff, Option.pure_def,
          Option.some.injEq] at h
        obtain ⟨text, hname, rest, hnames, rfl⟩ := h
        rw [List.map_cons, text?_eq_some_iff.1 hname, ih.1 hnames]
      · intro h
        obtain ⟨text, rest, rfl, hname, hnames⟩ := List.map_eq_cons_iff.1 h.symm
        rw [text?_eq_some_iff.2 hname.symm, ih.2 hnames.symm]
        rfl

theorem map_ofText_inj {xs ys : List String} : xs.map ofText = ys.map ofText ↔ xs = ys :=
  List.map_inj_right fun _ _ => ofText_inj.1

theorem stays_ofText (text : String) :
    (ofText text).stays = true ↔ text.toList = [] ∨ text.toList = ['.'] := by
  have hempty : Text.utf8 text = [] ↔ text = "" := @Text.utf8_inj text ""
  have hpoint : Text.utf8 text = [point] ↔ text = "." := @Text.utf8_inj text "."
  rw [stays, Bool.or_eq_true, decide_eq_true_iff, decide_eq_true_iff, ofText, hempty, hpoint,
    ← String.toList_inj, ← String.toList_inj]
  rfl

theorem goesUp_ofText (text : String) :
    (ofText text).goesUp = true ↔ text.toList = ['.', '.'] := by
  have hpoints : Text.utf8 text = [point, point] ↔ text = ".." := @Text.utf8_inj text ".."
  rw [goesUp, decide_eq_true_iff, ofText, hpoints, ← String.toList_inj]
  rfl

/-! ## Proper names -/

/-- A part of a path that goes down. -/
structure IsProper (name : FileName) : Prop where
  moves : name.stays = false
  descends : name.goesUp = false
  no_slash : slash ∉ name.bytes

instance (name : FileName) : Decidable name.IsProper :=
  decidable_of_iff (name.stays = false ∧ name.goesUp = false ∧ slash ∉ name.bytes)
    ⟨fun h => ⟨h.1, h.2.1, h.2.2⟩, fun h => ⟨h.moves, h.descends, h.no_slash⟩⟩

theorem slash_mem_utf8_iff {text : String} : slash ∈ Text.utf8 text ↔ '/' ∈ text.toList := by
  rw [Text.utf8, List.mem_flatMap]
  constructor
  · rintro ⟨c, hc, hslash⟩
    by_contra hnone
    have hne : c ≠ '/' := fun heq => hnone (heq ▸ hc)
    exact Text.not_mem_utf8EncodeChar (by decide) (by decide) hne hslash
  · exact fun h => ⟨'/', h, by decide⟩

theorem isProper_ofText_iff {text : String} : (ofText text).IsProper ↔ Path.IsName text := by
  constructor
  · intro h
    have hstays := mt (stays_ofText text).2 (by simp [h.moves])
    rw [not_or] at hstays
    refine ⟨hstays.1, hstays.2, mt (goesUp_ofText text).2 (by simp [h.descends]), ?_⟩
    exact mt slash_mem_utf8_iff.2 h.no_slash
  · intro h
    refine ⟨?_, ?_, mt slash_mem_utf8_iff.1 h.no_slash⟩
    · rw [← Bool.not_eq_true, stays_ofText, not_or]
      exact ⟨h.ne_nil, h.ne_here⟩
    · rw [← Bool.not_eq_true, goesUp_ofText]
      exact h.ne_up

theorem forall_isProper_ofText_iff {texts : List String} :
    (∀ name ∈ texts.map ofText, name.IsProper) ↔ ∀ text ∈ texts, Path.IsName text := by
  rw [List.forall_mem_map]
  exact forall₂_congr fun _ _ => isProper_ofText_iff

/-! ## Walks -/

def advance (here : List FileName) (part : FileName) : List FileName :=
  if part.stays then here
  else if part.goesUp then here.dropLast
  else here ++ [part]

def walk (here parts : List FileName) : List FileName :=
  parts.foldl advance here

theorem advance_ofText (here : List String) (part : List Char) :
    advance (here.map ofText) (ofText (String.ofList part)) =
      (Path.advance here part).map ofText := by
  have hstays := stays_ofText (String.ofList part)
  have hgoesUp := goesUp_ofText (String.ofList part)
  rw [String.toList_ofList] at hstays hgoesUp
  unfold advance Path.advance
  by_cases hstay : part = [] ∨ part = ['.']
  · rw [if_pos (hstays.2 hstay), if_pos hstay]
  · rw [if_neg (mt hstays.1 hstay), if_neg hstay]
    by_cases hup : part = ['.', '.']
    · rw [if_pos (hgoesUp.2 hup), if_pos hup, List.map_dropLast]
    · rw [if_neg (mt hgoesUp.1 hup), if_neg hup, List.map_append]
      rfl

/-- From text a path of text leads to text. -/
theorem walk_ofText (here : List String) (path : String) :
    walk (here.map ofText) (parts (Text.utf8 path)) =
      (Path.walk here (Path.parts path.toList)).map ofText := by
  rw [parts_utf8]
  induction Path.parts path.toList generalizing here with
  | nil => rfl
  | cons part rest ih =>
      rw [List.map_cons, walk, List.foldl_cons, advance_ofText]
      exact ih (Path.advance here part)

theorem isProper_advance {here : List FileName} (hhere : ∀ name ∈ here, name.IsProper)
    {part : FileName} (hpart : slash ∉ part.bytes) :
    ∀ name ∈ advance here part, name.IsProper := by
  unfold advance
  intro name hname
  split at hname
  · exact hhere name hname
  · rename_i hstay
    split at hname
    · exact hhere name ((List.dropLast_sublist here).subset hname)
    · rename_i hup
      rcases List.mem_append.1 hname with hmem | hmem
      · exact hhere name hmem
      · rw [List.mem_singleton.1 hmem]
        exact ⟨by simpa using hstay, by simpa using hup, hpart⟩

end FileName

/-! ## Extensions -/

namespace FileName

/-- The text behind the last point of a name; the rest of the name need not be text. -/
def extension? (name : FileName) : Option String :=
  (Path.behindLast? point name.bytes).bind fun bytes => text? ⟨bytes⟩

theorem behindLast?_flatMap (cs : List Char) :
    Path.behindLast? point (cs.flatMap String.utf8EncodeChar) =
      (Path.behindLast? '.' cs).map (·.flatMap String.utf8EncodeChar) := by
  -- Reversed bytes come in reversed blocks, one for each character.
  let block (c : Char) : List UInt8 := (String.utf8EncodeChar c).reverse
  have hpass : ∀ c, decide (c ≠ '.') = true → ∀ b ∈ block c, decide (b ≠ point) = true := by
    intro c hc b hb
    rw [decide_eq_true_iff] at hc ⊢
    rintro rfl
    exact Text.not_mem_utf8EncodeChar (by decide) (by decide) hc (List.mem_reverse.1 hb)
  have hstop : ∀ c, decide (c ≠ '.') = false →
      ∃ b bs, block c = b :: bs ∧ decide (b ≠ point) = false := by
    intro c hc
    have heq : c = '.' := by simpa using hc
    exact ⟨point, [], by rw [heq]; rfl, by decide⟩
  have hne : ∀ c, block c ≠ [] := by
    intro c
    simp [block, String.utf8EncodeChar_ne_nil]
  have hreverse : (cs.flatMap String.utf8EncodeChar).reverse = cs.reverse.flatMap block :=
    List.reverse_flatMap
  unfold Path.behindLast?
  dsimp only
  rw [hreverse, dropWhile_flatMap hpass hstop, takeWhile_flatMap hpass hstop]
  cases hdrop : cs.reverse.dropWhile (fun c => decide (c ≠ '.')) with
  | nil => rfl
  | cons c rest =>
      have hc : c = '.' := by
        have hhead := List.head?_dropWhile_not (fun c => decide (c ≠ '.')) cs.reverse
        rw [hdrop] at hhead
        simpa using hhead
      subst hc
      cases rest with
      | nil => rfl
      | cons d rest =>
          obtain ⟨b, bs, hb⟩ := List.exists_cons_of_ne_nil (hne d)
          have hextension :
              ((cs.reverse.takeWhile fun c => decide (c ≠ '.')).flatMap block).reverse =
              (cs.reverse.takeWhile fun c => decide (c ≠ '.')).reverse.flatMap
                String.utf8EncodeChar := by
            simp [block, List.reverse_flatMap, Function.comp_def]
          rw [List.flatMap_cons, List.flatMap_cons, hb, hextension]
          rfl

theorem extension?_ofText (text : String) :
    (ofText text).extension? = Path.nameExtension? text := by
  rw [extension?, ofText, Text.utf8, behindLast?_flatMap, Path.nameExtension?]
  cases Path.behindLast? '.' text.toList with
  | none => rfl
  | some cs =>
      rw [Option.map_some, Option.bind_some, Option.map_some, text?_eq_some_iff, ofText,
        Text.utf8_ofList]

end FileName

end TreeLint

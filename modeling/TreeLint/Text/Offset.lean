/-!
# Byte offsets in text

Text is a list of characters, and positions in it count UTF-8 bytes.  A byte
offset is valid only where a character begins or the text ends, so every
operation that takes an offset returns an option.
-/

namespace TreeLint

namespace Text

def byteLength : List Char → Nat
  | [] => 0
  | c :: cs => c.utf8Size + byteLength cs

theorem byteLength_append (cs ds : List Char) :
    byteLength (cs ++ ds) = byteLength cs + byteLength ds := by
  induction cs with
  | nil => simp [byteLength]
  | cons c cs ih => simp [byteLength, ih, Nat.add_assoc]

theorem byteLength_toList (s : String) : byteLength s.toList = s.utf8ByteSize := by
  have hchars : ∀ cs : List Char, byteLength cs = (String.ofList cs).utf8ByteSize := by
    intro cs
    induction cs with
    | nil => rfl
    | cons c cs ih =>
        rw [← List.singleton_append, String.ofList_append, String.utf8ByteSize_append, ← ih,
          ← String.singleton_eq_ofList, String.utf8ByteSize_singleton]
        rfl
  rw [hchars, String.ofList_toList]

theorem byteLength_pos {cs : List Char} (h : cs ≠ []) : 0 < byteLength cs := by
  cases cs with
  | nil => exact absurd rfl h
  | cons c cs =>
      have hc := c.utf8Size_pos
      rw [byteLength]
      omega

/-- Characters below 128 take one byte each. -/
theorem byteLength_of_ascii {cs : List Char} (h : ∀ c ∈ cs, c.toNat < 128) :
    byteLength cs = cs.length := by
  induction cs with
  | nil => rfl
  | cons c cs ih =>
      have hc : c.utf8Size = 1 := by
        rw [Char.utf8Size_eq_one_iff, UInt32.le_iff_toNat_le]
        exact Nat.le_of_lt_succ (h c List.mem_cons_self)
      rw [byteLength, hc, ih fun d hd => h d (List.mem_cons_of_mem c hd), List.length_cons]
      omega

/-- The text from byte offset `n` on, if a character begins there. -/
def dropBytes? : List Char → Nat → Option (List Char)
  | cs, 0 => some cs
  | [], _ + 1 => none
  | c :: cs, n + 1 =>
      if c.utf8Size ≤ n + 1 then dropBytes? cs (n + 1 - c.utf8Size) else none

/-- The text before byte offset `n`, if a character begins there. -/
def takeBytes? : List Char → Nat → Option (List Char)
  | _, 0 => some []
  | [], _ + 1 => none
  | c :: cs, n + 1 =>
      if c.utf8Size ≤ n + 1 then
        (takeBytes? cs (n + 1 - c.utf8Size)).map (c :: ·)
      else none

theorem eq_nil_of_byteLength {cs : List Char} (h : byteLength cs = 0) : cs = [] := by
  cases cs with
  | nil => rfl
  | cons c cs =>
      have hpos := byteLength_pos (List.cons_ne_nil c cs)
      omega

theorem not_splits_nil {before rest : List Char} {n : Nat} :
    ¬ ([] = before ++ rest ∧ byteLength before = n + 1) := by
  rintro ⟨hcs, hbefore⟩
  rw [(List.append_eq_nil_iff.1 hcs.symm).1] at hbefore
  cases hbefore

/-- A split behind the start lies behind the first character. -/
theorem splits_cons {c : Char} {cs before rest : List Char} {n : Nat} :
    (c :: cs = before ++ rest ∧ byteLength before = n + 1) ↔
      ∃ tail, before = c :: tail ∧ cs = tail ++ rest ∧ c.utf8Size ≤ n + 1 ∧
        byteLength tail = n + 1 - c.utf8Size := by
  constructor
  · rintro ⟨hcs, hbefore⟩
    cases before with
    | nil => cases hbefore
    | cons d tail =>
        cases hcs
        rw [byteLength] at hbefore
        exact ⟨tail, rfl, rfl, by omega, by omega⟩
  · rintro ⟨tail, rfl, rfl, hfits, htail⟩
    refine ⟨rfl, ?_⟩
    rw [byteLength]
    omega

theorem dropBytes?_eq_some_iff {cs rest : List Char} {n : Nat} :
    dropBytes? cs n = some rest ↔ ∃ before, cs = before ++ rest ∧ byteLength before = n := by
  fun_induction dropBytes? cs n with
  | case1 cs =>
      constructor
      · intro h
        exact ⟨[], Option.some.inj h, rfl⟩
      · rintro ⟨before, rfl, hbefore⟩
        rw [eq_nil_of_byteLength hbefore, List.nil_append]
  | case2 n => simp only [not_splits_nil, exists_false, reduceCtorEq]
  | case3 c cs n hfits ih =>
      simp only [splits_cons, ih]
      constructor
      · rintro ⟨tail, hcs, htail⟩
        exact ⟨c :: tail, tail, rfl, hcs, hfits, htail⟩
      · rintro ⟨-, tail, -, hcs, -, htail⟩
        exact ⟨tail, hcs, htail⟩
  | case4 c cs n hfits => simp [splits_cons, hfits]

theorem takeBytes?_eq_some_iff {cs before : List Char} {n : Nat} :
    takeBytes? cs n = some before ↔ ∃ rest, cs = before ++ rest ∧ byteLength before = n := by
  fun_induction takeBytes? cs n generalizing before with
  | case1 cs =>
      constructor
      · intro h
        cases h
        exact ⟨cs, rfl, rfl⟩
      · rintro ⟨rest, -, hbefore⟩
        rw [eq_nil_of_byteLength hbefore]
  | case2 n => simp only [not_splits_nil, exists_false, reduceCtorEq]
  | case3 c cs n hfits ih =>
      simp only [splits_cons, Option.map_eq_some_iff, ih]
      constructor
      · rintro ⟨tail, ⟨rest, hcs, htail⟩, rfl⟩
        exact ⟨rest, tail, rfl, hcs, hfits, htail⟩
      · rintro ⟨rest, tail, rfl, hcs, -, htail⟩
        exact ⟨tail, ⟨rest, hcs, htail⟩, rfl⟩
  | case4 c cs n hfits => simp [splits_cons, hfits]

def slice? (cs : List Char) (start stop : Nat) : Option (List Char) :=
  if start ≤ stop then
    (dropBytes? cs start).bind (takeBytes? · (stop - start))
  else none

theorem slice?_eq_some_iff {cs text : List Char} {start stop : Nat} :
    slice? cs start stop = some text ↔
      ∃ before after, cs = before ++ text ++ after ∧ byteLength before = start ∧
        byteLength (before ++ text) = stop := by
  unfold slice?
  by_cases horder : start ≤ stop
  · rw [if_pos horder, Option.bind_eq_some_iff]
    constructor
    · rintro ⟨rest, hdrop, htake⟩
      obtain ⟨before, rfl, hbefore⟩ := dropBytes?_eq_some_iff.1 hdrop
      obtain ⟨after, rfl, htext⟩ := takeBytes?_eq_some_iff.1 htake
      refine ⟨before, after, (List.append_assoc before text after).symm, hbefore, ?_⟩
      rw [byteLength_append]
      omega
    · rintro ⟨before, after, rfl, hbefore, htext⟩
      rw [byteLength_append] at htext
      refine ⟨text ++ after, dropBytes?_eq_some_iff.2 ⟨before, ?_, hbefore⟩, ?_⟩
      · rw [List.append_assoc]
      · exact takeBytes?_eq_some_iff.2 ⟨after, rfl, by omega⟩
  · rw [if_neg horder]
    simp only [reduceCtorEq, false_iff]
    rintro ⟨before, after, -, hbefore, htext⟩
    rw [byteLength_append] at htext
    omega

def utf8 (s : String) : List UInt8 :=
  s.toList.flatMap String.utf8EncodeChar

theorem toByteArray_utf8 (s : String) : (utf8 s).toByteArray = s.toByteArray :=
  String.utf8Encode_toList

theorem utf8_inj {a b : String} : utf8 a = utf8 b ↔ a = b := by
  rw [← List.toByteArray_inj, toByteArray_utf8, toByteArray_utf8, String.toByteArray_inj]

end Text

end TreeLint

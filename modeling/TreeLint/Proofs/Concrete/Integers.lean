import TreeLint.Concrete.Terminal
import TreeLint.Proofs.Number.Numeral

/-!
# Integer tokens

A token of an integer kind holds the number that its digits denote, in any of the
four radixes, whatever underscores group the digits and whatever type suffix
stands behind them.  A number that a word of 64 bits cannot hold leaves the text
of the token as it is.
-/

namespace TreeLint

namespace Concrete

def radixMarks : List (Nat × String) :=
  [(10, ""), (16, "0x"), (16, "0X"), (8, "0o"), (8, "0O"), (2, "0b"), (2, "0B")]

theorem occursIn_iff {part cs : List Char} : occursIn part cs = true ↔ part <:+: cs := by
  induction cs with
  | nil => simp [occursIn]
  | cons c cs ih =>
      rw [occursIn, Bool.or_eq_true, List.isPrefixOf_iff_prefix, ih, List.infix_cons_iff]

/-! ## Type suffixes -/

theorem stripEnding?_eq_some_iff {ending cs rest : List Char} :
    stripEnding? ending cs = some rest ↔ cs = rest ++ ending := by
  unfold stripEnding?
  constructor
  · intro h
    split at h
    · rename_i hsuffix
      obtain ⟨front, rfl⟩ := List.isSuffixOf_iff_suffix.1 hsuffix
      cases h
      simp
    · cases h
  · rintro rfl
    rw [if_pos (List.isSuffixOf_iff_suffix.2 (List.suffix_append rest ending))]
    simp

/-- No type suffix begins in the text: each of them begins with one of two letters. -/
def Suffixless (cs : List Char) : Prop :=
  'i' ∉ cs ∧ 'u' ∉ cs

theorem head_of_mem_integerSuffixes {s : String} (hs : s ∈ integerSuffixes) :
    s.toList.head? = some 'i' ∨ s.toList.head? = some 'u' := by
  have hall : (integerSuffixes.all fun s => s.toList.head? == some 'i' ||
      s.toList.head? == some 'u') = true := by decide +kernel
  simpa using List.all_eq_true.1 hall s hs

/-- No type suffix ends with another one. -/
theorem eq_of_suffix_of_mem {s t : String} (hs : s ∈ integerSuffixes) (ht : t ∈ integerSuffixes)
    (h : s.toList <:+ t.toList) : s = t := by
  have hall : (integerSuffixes.all fun s => integerSuffixes.all fun t =>
      !s.toList.isSuffixOf t.toList || s == t) = true := by decide +kernel
  have hpair := List.all_eq_true.1 (List.all_eq_true.1 hall s hs) t ht
  simpa [List.isSuffixOf_iff_suffix.2 h] using hpair

/-- A text in which no type suffix begins has at its end only the one that is put there. -/
theorem eq_of_ends_with {body front : List Char} (hbody : Suffixless body) {s t : String}
    (hs : s ∈ integerSuffixes) (ht : t = "" ∨ t ∈ integerSuffixes)
    (h : body ++ t.toList = front ++ s.toList) : s = t := by
  have hhead := head_of_mem_integerSuffixes hs
  rcases List.append_eq_append_iff.1 h with ⟨middle, -, hmiddle⟩ | ⟨middle, hmiddle, hends⟩
  · -- The suffix `s` lies inside of `t`.
    rcases ht with rfl | ht
    · obtain ⟨-, hnil⟩ := List.append_eq_nil_iff.1 hmiddle.symm
      simp [hnil] at hhead
    · exact eq_of_suffix_of_mem hs ht ⟨middle, hmiddle.symm⟩
  · -- The suffix `s` begins in the body, unless it is `t`.
    cases middle with
    | nil => exact String.toList_inj.1 hends
    | cons c middle =>
        have hmem : c ∈ body := by
          rw [hmiddle]
          exact List.mem_append_right front List.mem_cons_self
        rw [hends] at hhead
        rcases hhead with hc | hc
        · cases hc
          exact absurd hmem hbody.1
        · cases hc
          exact absurd hmem hbody.2

theorem stripSuffix_append {body : List Char} (hbody : Suffixless body) {t : String}
    (ht : t = "" ∨ t ∈ integerSuffixes) : stripSuffix (body ++ t.toList) = body := by
  unfold stripSuffix
  cases hfound : integerSuffixes.findSome? fun s => stripEnding? s.toList (body ++ t.toList) with
  | none =>
      rcases ht with rfl | ht
      · simp
      · have hnone := List.findSome?_eq_none_iff.1 hfound t ht
        rw [stripEnding?_eq_some_iff.2 rfl] at hnone
        cases hnone
  | some rest =>
      obtain ⟨s, hs, hrest⟩ := List.exists_of_findSome?_eq_some hfound
      rw [stripEnding?_eq_some_iff] at hrest
      obtain rfl := eq_of_ends_with hbody hs ht hrest
      exact (List.append_cancel_right hrest).symm

/-! ## Literals -/

/-- An integer literal without underscores: the mark of a radix, digits, perhaps a type suffix. -/
structure IntegerLiteral where
  radix : Nat
  mark : String
  digits : List Char
  suffix : String
  marked : (radix, mark) ∈ radixMarks
  numeral : Integer.IsNumeralIn radix digits
  suffixed : suffix = "" ∨ suffix ∈ integerSuffixes

namespace IntegerLiteral

def chars (l : IntegerLiteral) : List Char :=
  l.mark.toList ++ l.digits ++ l.suffix.toList

def value (l : IntegerLiteral) : Nat :=
  Integer.numeralValue l.radix l.digits

variable (l : IntegerLiteral)

theorem radix_le : l.radix ≤ 16 := by
  have hall : (radixMarks.all fun m => m.1 ≤ 16) = true := by decide +kernel
  simpa using List.all_eq_true.1 hall _ l.marked

/-- No type suffix begins in the mark or among the digits. -/
theorem suffixless : Suffixless (l.mark.toList ++ l.digits) := by
  have hall : (radixMarks.all fun m => !m.2.toList.contains 'i' && !m.2.toList.contains 'u') =
      true := by decide +kernel
  have hmark : Suffixless l.mark.toList := by
    simpa [Suffixless] using List.all_eq_true.1 hall _ l.marked
  have hdigits : ∀ d : Char, d.toLower ∉ Integer.digitAlphabet → d ∉ l.digits :=
    fun d hd hmem => l.numeral.ne_of_mem l.radix_le hmem hd rfl
  simp only [Suffixless, List.mem_append, not_or]
  exact ⟨⟨hmark.1, hdigits 'i' (by decide +kernel)⟩, ⟨hmark.2, hdigits 'u' (by decide +kernel)⟩⟩

end IntegerLiteral

/-- No decimal digits are taken for the mark of another radix. -/
theorem splitRadix_decimal {digits : List Char} (hdigits : Integer.IsNumeralIn 10 digits) :
    splitRadix digits = (10, digits) := by
  unfold splitRadix
  split
  · exact absurd (hdigits.digit 'x' (by simp)) (by decide +kernel)
  · exact absurd (hdigits.digit 'X' (by simp)) (by decide +kernel)
  · exact absurd (hdigits.digit 'o' (by simp)) (by decide +kernel)
  · exact absurd (hdigits.digit 'O' (by simp)) (by decide +kernel)
  · exact absurd (hdigits.digit 'b' (by simp)) (by decide +kernel)
  · exact absurd (hdigits.digit 'B' (by simp)) (by decide +kernel)
  · rfl

theorem splitRadix_append {radix : Nat} {mark : String} {digits : List Char}
    (hmark : (radix, mark) ∈ radixMarks) (hdigits : Integer.IsNumeralIn radix digits) :
    splitRadix (mark.toList ++ digits) = (radix, digits) := by
  simp only [radixMarks, List.mem_cons, List.not_mem_nil, or_false, Prod.mk.injEq] at hmark
  rcases hmark with ⟨rfl, rfl⟩ | ⟨rfl, rfl⟩ | ⟨rfl, rfl⟩ | ⟨rfl, rfl⟩ | ⟨rfl, rfl⟩ | ⟨rfl, rfl⟩ |
    ⟨rfl, rfl⟩
  · exact splitRadix_decimal hdigits
  all_goals simp [splitRadix]

/-- A literal with underscores in it is read as the number that it denotes. -/
theorem integerLiteral?_eq (l : IntegerLiteral) {cs : List Char}
    (hcs : cs.filter (· != '_') = l.chars) : integerLiteral? cs = Integer.toWord? l.value := by
  simp only [integerLiteral?, dropUnderscores, hcs, IntegerLiteral.chars,
    stripSuffix_append l.suffixless l.suffixed, splitRadix_append l.marked l.numeral]
  exact l.numeral.read? l.radix_le false

/-- A literal begins with a decimal digit, its own or the one of its mark. -/
theorem IntegerLiteral.head (l : IntegerLiteral) :
    ∃ c, l.chars.head? = some c ∧ Integer.digitNumber c < 10 := by
  obtain ⟨radix, mark, digits, suffix, hmark, hdigits, -⟩ := l
  simp only [radixMarks, List.mem_cons, List.not_mem_nil, or_false, Prod.mk.injEq] at hmark
  rcases hmark with ⟨rfl, rfl⟩ | ⟨-, rfl⟩ | ⟨-, rfl⟩ | ⟨-, rfl⟩ | ⟨-, rfl⟩ | ⟨-, rfl⟩ | ⟨-, rfl⟩
  · obtain ⟨c, tail, rfl⟩ := List.exists_cons_of_ne_nil hdigits.ne_nil
    exact ⟨c, rfl, hdigits.digit c List.mem_cons_self⟩
  all_goals exact ⟨'0', by simp [chars], by decide +kernel⟩

/-- A literal with underscores in it spells no truth value. -/
theorem booleanLiteral?_eq_none (l : IntegerLiteral) {text : String}
    (htext : text.toList.filter (· != '_') = l.chars) : booleanLiteral? text = none := by
  obtain ⟨c, hhead, hc⟩ := l.head
  have hne : ∀ {word : String} {d : Char}, (word.toList.filter (· != '_')).head? = some d →
      ¬ Integer.digitNumber d < 10 → text ≠ word := by
    rintro word d hword hd rfl
    rw [htext, hhead] at hword
    cases hword
    exact hd hc
  have htrue : text ≠ "true" := hne rfl (by decide +kernel)
  have hTrue : text ≠ "True" := hne rfl (by decide +kernel)
  have hfalse : text ≠ "false" := hne rfl (by decide +kernel)
  have hFalse : text ≠ "False" := hne rfl (by decide +kernel)
  simp [booleanLiteral?, htrue, hTrue, hfalse, hFalse]

/-! ## Kinds -/

/-- The word is part of the kind in lower case. -/
def KindHas (word kind : String) : Prop :=
  word.toList <:+: kind.toList.map Char.toLower

theorem occursIn_asciiLower (word kind : String) :
    occursIn word.toList (Text.asciiLower kind).toList = true ↔ KindHas word kind := by
  rw [occursIn_iff, Text.asciiLower, String.toList_ofList, KindHas]

instance (word kind : String) : Decidable (KindHas word kind) :=
  decidable_of_iff _ (occursIn_asciiLower word kind)

theorem asciiLower_ne {word kind other : String} (hkind : KindHas word kind)
    (hother : ¬ word.toList <:+: other.toList) : Text.asciiLower kind ≠ other := by
  rintro rfl
  rw [Text.asciiLower, String.toList_ofList] at hother
  exact hother hkind

theorem classify_of_integer {kind text : String} {n : Int64} (hkind : KindHas "integer" kind)
    (h : integerLiteral? text.toList = some n) : classify kind text = .integer n := by
  simp only [classify, (occursIn_asciiLower "integer" kind).2 hkind, if_true, h]

theorem classify_of_no_integer {kind text : String} (hkind : KindHas "integer" kind)
    (hfloat : ¬ KindHas "float" kind) (hinteger : integerLiteral? text.toList = none)
    (hboolean : booleanLiteral? text = none) : classify kind text = .string text := by
  have hlike : occursIn "float".toList (Text.asciiLower kind).toList = false := by
    rw [Bool.eq_false_iff, ne_eq, occursIn_asciiLower]
    exact hfloat
  have hnil : Text.asciiLower kind ≠ "nil" := asciiLower_ne hkind (by decide +kernel)
  have hnone : Text.asciiLower kind ≠ "none" := asciiLower_ne hkind (by decide +kernel)
  have hnull : Text.asciiLower kind ≠ "null" := asciiLower_ne hkind (by decide +kernel)
  simp only [classify, hlike, hinteger, hboolean, ite_self, Bool.false_eq_true, if_false,
    beq_eq_false_iff_ne.2 hnil, beq_eq_false_iff_ne.2 hnone, beq_eq_false_iff_ne.2 hnull,
    Bool.or_self]

/--
A token of an integer kind holds the number that its literal denotes if a word of
64 bits can hold it, and its unchanged text otherwise, wherever underscores stand
in the literal.
-/
theorem integer_token_exact {kind text : String} (l : IntegerLiteral)
    (hkind : KindHas "integer" kind) (hfloat : ¬ KindHas "float" kind)
    (htext : text.toList.filter (· != '_') = l.chars) :
    (l.value ≤ 2 ^ 63 - 1 → ∃ n : Int64, classify kind text = .integer n ∧ n.toInt = l.value) ∧
      (2 ^ 63 - 1 < l.value → classify kind text = .string text) := by
  have hread := integerLiteral?_eq l htext
  constructor
  · intro hfits
    obtain ⟨n, hword, hn⟩ := Integer.exists_toWord? (n := l.value) (by omega) (by omega)
    exact ⟨n, classify_of_integer hkind (hread.trans hword), hn⟩
  · intro hlarge
    have hword : Integer.toWord? l.value = none := Integer.toWord?_eq_none (by omega)
    exact classify_of_no_integer hkind hfloat (hread.trans hword) (booleanLiteral?_eq_none l htext)

/-- The largest word in hexadecimal digits of both cases, behind a zero. -/
def largestWord : IntegerLiteral where
  radix := 16
  mark := "0X"
  digits := "07fffFFFFffffFFFF".toList
  suffix := "isize"
  marked := by decide +kernel
  numeral := by decide +kernel
  suffixed := by decide +kernel

def pastLargestWord : IntegerLiteral where
  radix := 10
  mark := ""
  digits := "9223372036854775808".toList
  suffix := "u8"
  marked := by decide +kernel
  numeral := by decide +kernel
  suffixed := by decide +kernel

theorem integer_token_boundary :
    (∃ n : Int64, classify "Integer_Literal" "0X_07ff_fFFF_Fffff_FFFF__isize" = .integer n ∧
      n.toInt = 2 ^ 63 - 1) ∧
      classify "decimalINTEGER" "9_223_372_036_854_775_808_u8" =
        .string "9_223_372_036_854_775_808_u8" := by
  have hlargest : largestWord.value = 2 ^ 63 - 1 := by decide +kernel
  have hpast : pastLargestWord.value = 2 ^ 63 := by decide +kernel
  have hword : ∃ n : Int64, classify "Integer_Literal" "0X_07ff_fFFF_Fffff_FFFF__isize" =
      .integer n ∧ n.toInt = largestWord.value :=
    (integer_token_exact largestWord (by decide +kernel) (by decide +kernel)
      (by decide +kernel)).1 (by omega)
  refine ⟨?_, (integer_token_exact pastLargestWord (by decide +kernel) (by decide +kernel)
    (by decide +kernel)).2 (by omega)⟩
  obtain ⟨n, hclass, hn⟩ := hword
  exact ⟨n, hclass, by omega⟩

end Concrete

end TreeLint

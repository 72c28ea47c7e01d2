import TreeLint.Proofs.Pattern.Standing

/-!
# Spellings of a string

A character of a string is written as itself, by a short escape or by its number
in braces, and every mixture of such spellings is read as the string.  A number
that no character has is a fault at its backslash.
-/

namespace TreeLint

namespace Integer

/-! ## Hexadecimal numerals -/

theorem foldDigits?_map_toLower (radix acc : Nat) (digits : List Char) :
    foldDigits? radix acc (digits.map Char.toLower) = foldDigits? radix acc digits := by
  induction digits generalizing acc with
  | nil => rfl
  | cons d digits ih =>
      have hd : digitBelow? radix d.toLower = digitBelow? radix d := by
        rw [digitBelow?, digitBelow?, digitValue?_toLower]
      simp only [List.map_cons, foldDigits?, hd, ih]

/-- Zeros in front do not count. -/
theorem foldDigits?_zeros {radix : Nat} (hradix : 0 < radix) (k : Nat) (digits : List Char) :
    foldDigits? radix 0 (List.replicate k '0' ++ digits) = foldDigits? radix 0 digits := by
  have hzero : digitBelow? radix '0' = some 0 := by
    show (some 0).filter (· < radix) = some 0
    simp [hradix]
  induction k with
  | zero => rfl
  | succ k ih =>
      rw [List.replicate_succ, List.cons_append, foldDigits?, hzero]
      simpa using ih

end Integer

namespace Pattern

/-- Hexadecimal digits of the number, in any letter case and with zeros in front. -/
def HexNumeral (digits : List Char) (n : Nat) : Prop :=
  ∃ zeros, digits.map Char.toLower = List.replicate zeros '0' ++ Nat.toDigits 16 n

theorem HexNumeral.readNat? {digits : List Char} {n : Nat} (h : HexNumeral digits n) :
    Integer.readNat? 16 digits = some n := by
  obtain ⟨zeros, hdigits⟩ := h
  have hne : digits.isEmpty = false := by
    cases digits with
    | cons => rfl
    | nil =>
        have hnil := (List.append_eq_nil_iff.1 hdigits.symm).2
        exact absurd hnil Nat.toDigits_ne_nil
  have hfold : Integer.foldDigits? 16 0 digits = some n := by
    rw [← Integer.foldDigits?_map_toLower, hdigits, Integer.foldDigits?_zeros (by decide),
      Integer.foldDigits?_toDigits (by decide) (by decide)]
  rw [Integer.readNat?, hne, hfold]
  rfl

/-! ## Characters and their spellings -/

def shortEscapes : List (Char × Char) :=
  [('n', '\n'), ('t', '\t'), ('r', '\r'), ('0', Char.ofNat 0), ('\\', '\\'), ('"', '"'),
    ('\'', '\'')]

/-- A number in braces behind `\u`. -/
def numberEscape (digits : List Char) : List Char :=
  '\\' :: 'u' :: '\x7b' :: (digits ++ ['\x7d'])

inductive Spelling (quote c : Char) : List Char → Prop
  | plain (hquote : c ≠ quote) (hslash : c ≠ '\\') : Spelling quote c [c]
  | short {e : Char} (h : (e, c) ∈ shortEscapes) : Spelling quote c ['\\', e]
  | number {digits : List Char} (h : HexNumeral digits c.toNat) :
      Spelling quote c (numberEscape digits)

theorem shortEscape?_of_mem {e c : Char} (h : (e, c) ∈ shortEscapes) :
    shortEscape? e = some c := by
  simp only [shortEscapes, List.mem_cons, List.not_mem_nil, or_false, Prod.mk.injEq] at h
  rcases h with ⟨rfl, rfl⟩ | ⟨rfl, rfl⟩ | ⟨rfl, rfl⟩ | ⟨rfl, rfl⟩ | ⟨rfl, rfl⟩ | ⟨rfl, rfl⟩ |
    ⟨rfl, rfl⟩ <;> rfl

theorem Spelling.spellsChar {quote c : Char} {text : List Char} (h : Spelling quote c text) :
    SpellsChar quote text c := by
  cases h with
  | plain hquote hslash => exact .plain hquote hslash
  | short h => exact .short (shortEscape?_of_mem h)
  | number h => exact .number h.readNat? (charOfNumber?_toNat c)

theorem spells_flatten {quote : Char} {cs : List Char} {spellings : List (List Char)}
    (h : List.Forall₂ (Spelling quote) cs spellings) : Spells quote spellings.flatten cs := by
  induction h with
  | nil => exact .nil
  | cons hhead _ ih =>
      rw [List.flatten_cons]
      exact .cons hhead.spellsChar ih

/-! ## Numbers of no character -/

/-- No digits, or those of a number that is too large or belongs to a surrogate. -/
def NoCharacter (digits : List Char) : Prop :=
  digits = [] ∨ ∃ n, HexNumeral digits n ∧
    (2 ^ 32 ≤ n ∨ (0xD800 ≤ n ∧ n ≤ 0xDFFF) ∨ 0x10FFFF < n)

theorem scanNumberEscape?_of_noCharacter {digits : List Char} (h : NoCharacter digits)
    (rest : List Char) : scanNumberEscape? ('\x7b' :: (digits ++ '\x7d' :: rest)) = none := by
  rcases h with rfl | ⟨n, hdigits, hn⟩
  · rfl
  · have hread := hdigits.readNat?
    have hinvalid : ¬ n.isValidChar := by
      unfold Nat.isValidChar
      omega
    rw [scanNumberEscape?_braced (isHexDigit_of_readNat? hread), hread, Option.bind_some,
      charOfNumber?, if_neg hinvalid]
    rfl

/-- A string with the number of no character is a fault at the backslash. -/
theorem scanFrom_noCharacter {quote : Char} {text cs digits : List Char}
    (hquote : quote = '"' ∨ quote = '\'') (hspells : Spells quote text cs)
    (hdigits : NoCharacter digits) (more : List Char) (offset : Nat) :
    scanFrom (quote :: (text ++ numberEscape digits ++ more)) offset =
      .error ⟨.invalidEscape 'u', offset + Text.byteLength (quote :: text)⟩ := by
  have hslash := quote_ne_slash hquote
  have hvisible : ¬ Text.isBlank quote = true := by simp [isBlank_quote hquote]
  have hbytes : Text.byteLength (quote :: text) = 1 + Text.byteLength text := by
    rcases hquote with rfl | rfl <;> rfl
  have hescape : numberEscape digits ++ more =
      '\\' :: 'u' :: '\x7b' :: (digits ++ '\x7d' :: more) := by
    simp [numberEscape]
  apply scanFrom_fault hvisible
  rw [scanToken_quote hquote, List.append_assoc, scanString_spelled hslash hspells, hescape,
    scanString_noNumber _ _ _ hslash.symm (scanNumberEscape?_of_noCharacter hdigits more),
    hbytes, Nat.add_assoc]

/--
Every mixture of spellings of a string between quotes is compiled to the string.
The number of no character, wherever it stands in a string, is refused at its
backslash.
-/
theorem string_spellings_decoded :
    (∀ {quote : Char} {s : String} {spellings : List (List Char)},
      quote = '"' ∨ quote = '\'' → List.Forall₂ (Spelling quote) s.toList spellings →
      compile (String.ofList (quote :: (spellings.flatten ++ [quote]))) =
        .ok (.literal (.string s))) ∧
      ∀ {front before text : String} {tokens : List Located} {quote : Char} {s : String}
        {spellings : List (List Char)} {digits more : List Char},
        quote = '"' ∨ quote = '\'' → List.Forall₂ (Spelling quote) s.toList spellings →
        NoCharacter digits → scan front = .ok tokens →
        before = front ++ String.ofList (quote :: spellings.flatten) →
        text = before ++ String.ofList (numberEscape digits ++ more) →
        compile text = .error ⟨text, ⟨.invalidEscape 'u', before.utf8ByteSize⟩⟩ := by
  constructor
  · intro quote s spellings hquote hspellings
    have hlexes := lexes_string hquote (spells_flatten hspellings) []
    rw [String.ofList_toList] at hlexes
    exact compile_of_lexes hlexes (.primary (.string s))
  · intro front before text tokens quote s spellings digits more hquote hspellings hdigits hfront
      hbefore htext
    obtain ⟨body, last, rfl, -⟩ := scanFrom_eq_concat hfront
    have hlist : text.toList =
        front.toList ++ quote :: (spellings.flatten ++ numberEscape digits ++ more) := by
      simp [htext, hbefore]
    have hposition : before.utf8ByteSize =
        Text.byteLength front.toList + Text.byteLength (quote :: spellings.flatten) := by
      rw [← Text.byteLength_toList, hbefore, String.toList_append, String.toList_ofList,
        Text.byteLength_append]
    have hscan : scan text = .error ⟨.invalidEscape 'u', before.utf8ByteSize⟩ := by
      rw [scan, hlist, scanFrom_append (delimited_quote hquote _) hfront, scanFrom_stop hfront,
        scanFrom_noCharacter hquote (spells_flatten hspellings) hdigits, hposition]
      rfl
    simp only [compile, hscan]

/--
A letter by its number with a zero in front, a line break by a short escape and a
quote of the other kind as itself; and a surrogate behind a letter of two bytes.
-/
theorem compile_mixed_spellings :
    compile "'\\u\x7b0E9\x7d\\n\"'" = .ok (.literal (.string "é\n\"")) ∧
      compile "a(\"é\\u\x7bd800\x7d" =
        .error ⟨"a(\"é\\u\x7bd800\x7d", ⟨.invalidEscape 'u', 5⟩⟩ := by
  constructor
  · have hnumber : HexNumeral ['0', 'E', '9'] 'é'.toNat := ⟨1, by decide⟩
    have hspellings : List.Forall₂ (Spelling '\'') "é\n\"".toList
        [numberEscape ['0', 'E', '9'], ['\\', 'n'], ['"']] :=
      .cons (.number hnumber) (.cons (.short (by decide))
        (.cons (.plain (by decide) (by decide)) .nil))
    have htext : "'\\u\x7b0E9\x7d\\n\"'" = String.ofList
        ('\'' :: ([numberEscape ['0', 'E', '9'], ['\\', 'n'], ['"']].flatten ++ ['\''])) := by
      decide +kernel
    rw [htext]
    exact string_spellings_decoded.1 (.inr rfl) hspellings
  · have hletter : List.Forall₂ (Spelling '"') "é".toList [['é']] :=
      .cons (.plain (by decide) (by decide)) .nil
    have hsurrogate : NoCharacter ['d', '8', '0', '0'] :=
      .inr ⟨0xD800, ⟨0, by decide⟩, .inr (.inl (by decide))⟩
    have hfront : scan "a(" = .ok [⟨.name "a", 0⟩, ⟨.openParen, 1⟩, ⟨.stop, 2⟩] := by decide +kernel
    have hbefore : "a(\"é" = "a(" ++ String.ofList ('"' :: [['é']].flatten) := by decide +kernel
    have htext : "a(\"é\\u\x7bd800\x7d" =
        "a(\"é" ++ String.ofList (numberEscape ['d', '8', '0', '0'] ++ []) := by decide +kernel
    have hbytes : "a(\"é".utf8ByteSize = 5 := by decide +kernel
    rw [← hbytes]
    exact string_spellings_decoded.2 (.inl rfl) hletter hsurrogate hfront hbefore htext

end Pattern

end TreeLint

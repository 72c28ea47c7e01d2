import TreeLint.Proofs.Number.RoundTrip
import TreeLint.Proofs.Pattern.Grammar

/-!
# Scanning what was written

Each word of pattern text is scanned as one token, whatever stands behind it, as
long as the text behind it does not continue the word.
-/

namespace TreeLint

namespace Pattern

/--
The text `cs` begins with the words `ts`, and `rest` stands behind them: the
tokens of `cs` are these words and then the tokens of `rest`.
-/
def Lexes (cs : List Char) (ts : List Token) (rest : List Char) : Prop :=
  ∀ offset, ∃ used offset', words used = ts ∧
    scanFrom cs offset = (scanFrom rest offset').map (used ++ ·)

namespace Lexes

variable {cs mid rest : List Char} {ts us : List Token}

theorem refl (cs : List Char) : Lexes cs [] cs := by
  intro offset
  refine ⟨[], offset, rfl, ?_⟩
  cases scanFrom cs offset <;> rfl

theorem trans (h : Lexes cs ts mid) (h' : Lexes mid us rest) : Lexes cs (ts ++ us) rest := by
  intro offset
  obtain ⟨used, offset', hused, hscan⟩ := h offset
  obtain ⟨used', offset'', hused', hscan'⟩ := h' offset'
  refine ⟨used ++ used', offset'', by rw [words_append, hused, hused'], ?_⟩
  rw [hscan, hscan']
  cases scanFrom rest offset'' with
  | error fault => rfl
  | ok tokens => simp [Except.map]

/-- Blank characters between the words are passed over. -/
theorem blank {c : Char} (hblank : Text.isBlank c = true) (h : Lexes cs ts rest) :
    Lexes (c :: cs) ts rest := by
  intro offset
  obtain ⟨used, offset', hused, hscan⟩ := h (offset + c.utf8Size)
  refine ⟨used, offset', hused, ?_⟩
  rw [scanFrom_blank hblank, hscan]

/-- One token and the words behind it. -/
theorem token {c : Char} {t : Token} (hblank : Text.isBlank c = false)
    (htoken : ∀ offset, ∃ offset', scanToken offset c cs = .ok ⟨t, mid, offset'⟩)
    (h : Lexes mid ts rest) : Lexes (c :: cs) (t :: ts) rest := by
  intro offset
  obtain ⟨middle, hmiddle⟩ := htoken offset
  obtain ⟨used, offset', hused, hscan⟩ := h middle
  refine ⟨⟨t, offset⟩ :: used, offset', by rw [words_cons, hused], ?_⟩
  have hvisible : ¬ Text.isBlank c = true := by simp [hblank]
  rw [scanFrom_token hvisible hmiddle, hscan]
  cases scanFrom rest offset' <;> rfl

end Lexes

/-! ## Signs and words -/

/-- No visible ASCII character is blank. -/
theorem isBlank_of_visible {c : Char} (hlow : 32 < c.toNat) (hhigh : c.toNat < 127) :
    Text.isBlank c = false := by
  simp only [Text.isBlank, Bool.or_eq_false_iff, Bool.and_eq_false_iff, decide_eq_false_iff_not,
    beq_eq_false_iff_ne]
  omega

theorem toNat_of_isAlpha {c : Char} (hc : c.isAlpha = true) : 65 ≤ c.toNat ∧ c.toNat ≤ 122 := by
  unfold Char.isAlpha Char.isUpper Char.isLower at hc
  simp only [Bool.or_eq_true, Bool.and_eq_true, decide_eq_true_eq, UInt32.le_iff_toNat_le,
    ge_iff_le] at hc
  rcases hc with hupper | hlower
  · exact ⟨hupper.1, Nat.le_trans hupper.2 (by decide)⟩
  · exact ⟨Nat.le_trans (by decide) hlower.1, hlower.2⟩

theorem toNat_of_isWordChar {c : Char} (hc : isWordChar c = true) :
    48 ≤ c.toNat ∧ c.toNat ≤ 122 := by
  simp only [isWordChar, Char.isAlphanum, Bool.or_eq_true, beq_iff_eq] at hc
  rcases hc with (halpha | hdigit) | rfl
  · have hnat := toNat_of_isAlpha halpha
    omega
  · have hnat := Char.isDigit_iff_toNat.1 hdigit
    exact ⟨hnat.1, Nat.le_trans hnat.2 (by decide)⟩
  · decide

theorem isBlank_of_isWordChar {c : Char} (hc : isWordChar c = true) : Text.isBlank c = false := by
  have hnat := toNat_of_isWordChar hc
  exact isBlank_of_visible (by omega) (by omega)

theorem isWordChar_of_isWordStart {c : Char} (hc : isWordStart c = true) :
    isWordChar c = true := by
  simp only [isWordStart, Bool.or_eq_true] at hc
  simp only [isWordChar, Char.isAlphanum, Bool.or_eq_true]
  rcases hc with halpha | hunder
  · exact .inl (.inl halpha)
  · exact .inr hunder

theorem isWordChar_of_isDigit {c : Char} (hc : c.isDigit = true) : isWordChar c = true := by
  simp [isWordChar, Char.isAlphanum, hc]

theorem isDigit_of_isWordStart {c : Char} (hc : isWordStart c = true) : c.isDigit = false := by
  rw [Bool.eq_false_iff]
  intro hdigit
  rw [Char.isDigit_iff_toNat] at hdigit
  simp only [isWordStart, Bool.or_eq_true, beq_iff_eq] at hc
  rcases hc with halpha | rfl
  · exact absurd (Nat.le_trans (toNat_of_isAlpha halpha).1 hdigit.2) (by decide)
  · exact absurd hdigit (by decide)

theorem sign?_of_isWordChar {c : Char} (hc : isWordChar c = true) : sign? c = none := by
  unfold sign?
  split <;> first | rfl | exact absurd hc (by decide)

theorem lexes_sign {c : Char} {t : Token} (hsign : sign? c = some t) (rest : List Char) :
    Lexes (c :: rest) [t] rest := by
  have hblank : Text.isBlank c = false := by
    unfold sign? at hsign
    split at hsign <;> first | rfl | cases hsign
  refine .token hblank (fun offset => ⟨offset + 1, ?_⟩) (.refl rest)
  simp only [scanToken, hsign]

theorem lexes_ellipsis (rest : List Char) :
    Lexes ('.' :: '.' :: '.' :: rest) [.ellipsis] rest :=
  .token rfl (fun offset => ⟨offset + 3, rfl⟩) (.refl rest)

/-- No word and no number goes on into the text. -/
def Delimited : List Char → Prop
  | [] => True
  | c :: cs => isWordChar c = false ∧ c ≠ '+' ∧ c ≠ '-' ∧ (c = '.' → startsWithDigit cs = false)

theorem delimited_cons {c : Char} (hword : isWordChar c = false) (hsign : c ∉ ['+', '-', '.'])
    (cs : List Char) : Delimited (c :: cs) := by
  simp only [List.mem_cons, List.not_mem_nil, or_false, not_or] at hsign
  exact ⟨hword, hsign.1, hsign.2.1, fun h => absurd h hsign.2.2⟩

theorem takeWhile_append_delimited {cs rest : List Char} (hcs : ∀ d ∈ cs, isWordChar d = true)
    (hrest : Delimited rest) :
    (cs ++ rest).takeWhile isWordChar = cs ∧ (cs ++ rest).dropWhile isWordChar = rest := by
  rw [List.takeWhile_append_of_pos hcs, List.dropWhile_append_of_pos hcs]
  cases rest with
  | nil => simp
  | cons d ds => simp [hrest.1]

theorem lexes_word {c : Char} {cs rest : List Char} (hc : isWordStart c = true)
    (hcs : ∀ d ∈ cs, isWordChar d = true) (hrest : Delimited rest) :
    Lexes (c :: (cs ++ rest)) [wordToken (String.ofList (c :: cs))] rest := by
  have hword := isWordChar_of_isWordStart hc
  obtain ⟨htake, hdrop⟩ := takeWhile_append_delimited hcs hrest
  refine .token (isBlank_of_isWordChar hword) (fun offset => ⟨offset + (c :: cs).length, ?_⟩)
    (.refl rest)
  have hne : ∀ d, isWordChar d = false → c ≠ d := by
    rintro d hd rfl
    simp [hword] at hd
  simp only [scanToken, sign?_of_isWordChar hword, hne '.' rfl, hne '"' rfl, hne '\'' rfl,
    hne '-' rfl, isDigit_of_isWordStart hc, hc, scanWord, htake, hdrop, decide_false, Bool.or_self,
    Bool.false_eq_true, if_false, if_true]

/-! ## Strings -/

/-- The ways to write a character of a string between two quotes. -/
inductive SpellsChar (quote : Char) : List Char → Char → Prop
  | plain {c : Char} (hquote : c ≠ quote) (hslash : c ≠ '\\') : SpellsChar quote [c] c
  | short {e c : Char} (hescape : shortEscape? e = some c) : SpellsChar quote ['\\', e] c
  | number {digits : List Char} {n : Nat} {c : Char} (hdigits : Integer.readNat? 16 digits = some n)
      (hchar : charOfNumber? n = some c) :
      SpellsChar quote ('\\' :: 'u' :: '\x7b' :: (digits ++ ['\x7d'])) c

/-- The ways to write a string between two quotes. -/
inductive Spells (quote : Char) : List Char → List Char → Prop
  | nil : Spells quote [] []
  | cons {text texts cs : List Char} {c : Char} (hhead : SpellsChar quote text c)
      (htail : Spells quote texts cs) : Spells quote (text ++ texts) (c :: cs)

theorem isHexDigit_of_readNat? {digits : List Char} {n : Nat}
    (h : Integer.readNat? 16 digits = some n) : ∀ c ∈ digits, isHexDigit c = true := by
  have hfold : ∀ acc, Integer.foldDigits? 16 acc digits = some n →
      ∀ c ∈ digits, isHexDigit c = true := by
    clear h
    induction digits with
    | nil => simp
    | cons d ds ih =>
        intro acc hacc c hc
        simp only [Integer.foldDigits?] at hacc
        cases hd : Integer.digitBelow? 16 d with
        | none => simp [hd] at hacc
        | some value =>
            rw [hd] at hacc
            rcases List.mem_cons.1 hc with rfl | hmem
            · simp [isHexDigit, hd]
            · exact ih _ hacc c hmem
  unfold Integer.readNat? at h
  split at h
  · cases h
  · exact hfold 0 h

/-- The brace is where the digits end. -/
theorem scanNumberEscape?_braced {digits : List Char} (hhex : ∀ c ∈ digits, isHexDigit c = true)
    (rest : List Char) :
    scanNumberEscape? ('\x7b' :: (digits ++ '\x7d' :: rest)) =
      ((Integer.readNat? 16 digits).bind charOfNumber?).map
        fun c => (c, rest, digits.length + 2) := by
  have hclose : isHexDigit '\x7d' = false := by decide
  simp only [scanNumberEscape?, List.takeWhile_append_of_pos hhex,
    List.dropWhile_append_of_pos hhex]
  simp [hclose]

theorem scanNumberEscape?_eq {digits : List Char} {n : Nat} {c : Char}
    (hdigits : Integer.readNat? 16 digits = some n) (hchar : charOfNumber? n = some c)
    (rest : List Char) :
    scanNumberEscape? ('\x7b' :: (digits ++ '\x7d' :: rest)) =
      some (c, rest, digits.length + 2) := by
  rw [scanNumberEscape?_braced (isHexDigit_of_readNat? hdigits), hdigits, Option.bind_some, hchar,
    Option.map_some]

theorem scanNumberEscape?_eq_some {tail rest : List Char} {c : Char} {bytes : Nat}
    (h : scanNumberEscape? tail = some (c, rest, bytes)) :
    ∃ digits n, tail = '\x7b' :: (digits ++ '\x7d' :: rest) ∧ Integer.readNat? 16 digits = some n ∧
      charOfNumber? n = some c ∧ bytes = digits.length + 2 := by
  unfold scanNumberEscape? at h
  split at h
  · rename_i cs
    simp only at h
    split at h
    · rename_i behind hbehind
      have hsplit := List.takeWhile_append_dropWhile (p := isHexDigit) (l := cs)
      simp only [Option.map_eq_some_iff, Option.bind_eq_some_iff, Prod.mk.injEq] at h
      obtain ⟨d, ⟨n, hdigits, hchar⟩, rfl, rfl, hbytes⟩ := h
      rw [hbehind] at hsplit
      exact ⟨cs.takeWhile isHexDigit, n, by rw [hsplit], hdigits, hchar, hbytes.symm⟩
    · cases h
  · cases h

theorem toNat_lt_of_isHexDigit {c : Char} (h : isHexDigit c = true) : c.toNat < 128 := by
  unfold isHexDigit Integer.digitBelow? Integer.digitValue? at h
  by_contra hlarge
  have hdigit : ¬ (48 ≤ c.toNat ∧ c.toNat ≤ 57) := by omega
  have hlower : ¬ (97 ≤ c.toNat ∧ c.toNat ≤ 122) := by omega
  have hupper : ¬ (65 ≤ c.toNat ∧ c.toNat ≤ 90) := by omega
  simp [hdigit, hlower, hupper] at h

theorem toNat_lt_of_shortEscape? {e d : Char} (h : shortEscape? e = some d) : e.toNat < 128 := by
  unfold shortEscape? at h
  split at h <;> first | decide | cases h

theorem byteLength_numberEscape {digits : List Char} {n : Nat}
    (hdigits : Integer.readNat? 16 digits = some n) :
    Text.byteLength ('\\' :: 'u' :: '\x7b' :: (digits ++ ['\x7d'])) = 2 + (digits.length + 2) := by
  have hhex := isHexDigit_of_readNat? hdigits
  have hbytes : Text.byteLength digits = digits.length :=
    Text.byteLength_of_ascii fun c hc => toNat_lt_of_isHexDigit (hhex c hc)
  have hfront : Text.byteLength ['\\', 'u', '\x7b'] = 3 := rfl
  have hclose : Text.byteLength ['\x7d'] = 1 := rfl
  show Text.byteLength (['\\', 'u', '\x7b'] ++ (digits ++ ['\x7d'])) = _
  rw [Text.byteLength_append, Text.byteLength_append, hbytes, hfront, hclose]
  omega

/-- A character of a string is read from any of its spellings. -/
theorem scanString_spelledChar {quote c : Char} {text : List Char} (hquote : quote ≠ '\\')
    (h : SpellsChar quote text c) (start : Nat) (acc rest : List Char) (offset : Nat) :
    scanString quote start acc (text ++ rest) offset =
      scanString quote start (c :: acc) rest (offset + Text.byteLength text) := by
  cases h with
  | plain hne hslash => exact scanString_plain start acc offset hne hslash rest
  | @short e c hescape =>
      have hbytes : Text.byteLength ['\\', e] = 2 :=
        Text.byteLength_of_ascii (by simp [toNat_lt_of_shortEscape? hescape])
      rw [hbytes]
      exact scanString_short start acc offset hquote.symm hescape rest
  | @number digits n c hdigits hchar =>
      have hnumber := scanNumberEscape?_eq hdigits hchar rest
      have htext : '\\' :: 'u' :: '\x7b' :: (digits ++ ['\x7d']) ++ rest =
          '\\' :: 'u' :: '\x7b' :: (digits ++ '\x7d' :: rest) := by simp
      rw [htext, byteLength_numberEscape hdigits, ← Nat.add_assoc]
      exact scanString_number start acc offset hquote.symm hnumber

/-- A string is read from any of its spellings. -/
theorem scanString_spelled {quote : Char} {text cs : List Char} (hquote : quote ≠ '\\')
    (h : Spells quote text cs) (start : Nat) (acc rest : List Char) (offset : Nat) :
    scanString quote start acc (text ++ rest) offset =
      scanString quote start (cs.reverse ++ acc) rest (offset + Text.byteLength text) := by
  -- Every character that is read goes from the spelling into the accumulator.
  induction h generalizing acc offset with
  | nil => rfl
  | @cons text texts cs c hhead htail ih =>
      rw [List.append_assoc, scanString_spelledChar hquote hhead, ih, List.reverse_cons,
        List.append_assoc, Text.byteLength_append, Nat.add_assoc]
      rfl

section Quote

variable {quote : Char} (hquote : quote = '"' ∨ quote = '\'')
include hquote

theorem quote_ne_slash : quote ≠ '\\' := by
  rcases hquote with rfl | rfl <;> decide

theorem isBlank_quote : Text.isBlank quote = false := by
  rcases hquote with rfl | rfl <;> decide

theorem scanToken_quote (offset : Nat) (cs : List Char) :
    scanToken offset quote cs = scanString quote offset [] cs (offset + 1) := by
  rcases hquote with rfl | rfl <;> rfl

theorem delimited_quote (cs : List Char) : Delimited (quote :: cs) := by
  rcases hquote with rfl | rfl
  · exact delimited_cons rfl (by decide) cs
  · exact delimited_cons rfl (by decide) cs

/-- A string in either kind of quotes is one token. -/
theorem lexes_string {text cs : List Char} (h : Spells quote text cs) (rest : List Char) :
    Lexes (quote :: (text ++ quote :: rest)) [.string (String.ofList cs)] rest := by
  refine .token (isBlank_quote hquote)
    (fun offset => ⟨offset + 1 + Text.byteLength text + 1, ?_⟩) (.refl rest)
  rw [scanToken_quote hquote, scanString_spelled (quote_ne_slash hquote) h, scanString_quote,
    List.append_nil, List.reverse_reverse]

end Quote

theorem charOfNumber?_toNat (c : Char) : charOfNumber? c.toNat = some c := by
  have hvalid : c.toNat.isValidChar := c.valid
  rw [charOfNumber?, if_pos hvalid, Char.ofNat_toNat]

/-- The quoted form of a character is one of its spellings. -/
theorem spellsChar_quoteChar (hidden : Char → Bool) (c : Char) :
    SpellsChar '"' (Text.quoteChar hidden c) c := by
  unfold Text.quoteChar
  by_cases hquote : c = '"'
  · rw [if_pos hquote, hquote]
    exact .short rfl
  by_cases hslash : c = '\\'
  · rw [if_neg hquote, if_pos hslash, hslash]
    exact .short rfl
  rw [if_neg hquote, if_neg hslash]
  by_cases hnewline : c = '\n'
  · rw [if_pos hnewline, hnewline]
    exact .short rfl
  by_cases hreturn : c = '\r'
  · rw [if_neg hnewline, if_pos hreturn, hreturn]
    exact .short rfl
  by_cases htab : c = '\t'
  · rw [if_neg hnewline, if_neg hreturn, if_pos htab, htab]
    exact .short rfl
  rw [if_neg hnewline, if_neg hreturn, if_neg htab]
  by_cases hzero : c.toNat = 0
  · rw [if_pos hzero, ← Char.ofNat_toNat c, hzero]
    exact .short rfl
  rw [if_neg hzero]
  by_cases hhidden : hidden c = true
  · rw [if_pos hhidden]
    exact .number (Integer.readNat?_toDigits (by decide) (by decide) _) (charOfNumber?_toNat c)
  · rw [if_neg hhidden]
    exact .plain hquote hslash

theorem spells_flatMap_quoteChar (hidden : Char → Bool) (cs : List Char) :
    Spells '"' (cs.flatMap (Text.quoteChar hidden)) cs := by
  induction cs with
  | nil => exact .nil
  | cons c cs ih =>
      rw [List.flatMap_cons]
      exact .cons (spellsChar_quoteChar hidden c) ih

/-- A string is scanned from its quoted form, whichever characters are written by number. -/
theorem lexes_quoteChars (hidden : Char → Bool) (s : String) (rest : List Char) :
    Lexes (Text.quoteChars hidden s.toList ++ rest) [.string s] rest := by
  have h := lexes_string (.inl rfl) (spells_flatMap_quoteChar hidden s.toList) rest
  rw [String.ofList_toList] at h
  simpa [Text.quoteChars] using h

/-! ## Numbers -/

section Numbers

variable {cs rest taken : List Char} {isFloat float : Bool}

/--
Whether a number goes on at character `c`, and as a float or not.  `digit` says
whether a digit stands behind the character.
-/
def numberGoesOn? (isFloat : Bool) (last c : Char) (digit : Bool) : Option Bool :=
  if c.isDigit || c == '_' then some isFloat
  else if c == '.' && !isFloat && digit then some true
  else if c == 'e' || c == 'E' then some true
  else if (c == '+' || c == '-') && (last == 'e' || last == 'E') then some isFloat
  else none

theorem splitNumber_cons (isFloat : Bool) (last c : Char) (cs : List Char) :
    splitNumber isFloat last (c :: cs) =
      match numberGoesOn? isFloat last c (startsWithDigit cs) with
      | some float => (c :: (splitNumber float c cs).1, (splitNumber float c cs).2)
      | none => ([], isFloat, c :: cs) := by
  simp only [splitNumber, numberGoesOn?]
  split
  · rfl
  · split
    · rfl
    · split
      · rfl
      · split <;> rfl

theorem splitNumber_delimited (hrest : Delimited rest) (isFloat : Bool) (last : Char) :
    splitNumber isFloat last rest = ([], isFloat, rest) := by
  cases rest with
  | nil => rfl
  | cons c cs =>
      obtain ⟨hword, hplus, hminus, hpoint⟩ := hrest
      have hne : ∀ d, isWordChar d = true → c ≠ d := by
        rintro d hd rfl
        simp [hword] at hd
      have hdigit : c.isDigit = false := by
        rw [Bool.eq_false_iff]
        intro hdigit
        simp [isWordChar_of_isDigit hdigit] at hword
      simp only [splitNumber, hdigit, beq_eq_false_iff_ne.2 (hne '_' rfl),
        beq_eq_false_iff_ne.2 (hne 'e' rfl), beq_eq_false_iff_ne.2 (hne 'E' rfl),
        beq_eq_false_iff_ne.2 hplus, beq_eq_false_iff_ne.2 hminus, Bool.or_self, Bool.false_and,
        Bool.false_eq_true, if_false]
      by_cases hc : c = '.'
      · simp [hpoint hc]
      · simp [hc]

theorem splitNumber_digit {c : Char} (hc : c.isDigit = true) (last : Char) (cs : List Char) :
    splitNumber isFloat last (c :: cs) =
      (c :: (splitNumber isFloat c cs).1, (splitNumber isFloat c cs).2) := by
  simp [splitNumber, hc]

/-- Digits are taken whatever stands before them. -/
theorem splitNumber_digits {ds : List Char} (hds : IsNumeral ds)
    (h : ∀ last, splitNumber isFloat last rest = (taken, float, cs)) (last : Char) :
    splitNumber isFloat last (ds ++ rest) = (ds ++ taken, float, cs) := by
  -- The hypothesis is for every character before `rest`, since the last digit is that character.
  have hall := hds.isDigit
  clear hds
  induction ds generalizing last with
  | nil => exact h last
  | cons d ds ih =>
      have htail := ih d fun c hc => hall c (List.mem_cons_of_mem d hc)
      rw [List.cons_append, splitNumber_digit (hall d List.mem_cons_self), htail]
      rfl

/-- The first point is taken if a digit stands behind it. -/
theorem splitNumber_point {part : List Char} (hpart : IsNumeral part)
    (h : ∀ last, splitNumber true last rest = (taken, float, cs)) (last : Char) :
    splitNumber false last ('.' :: (part ++ rest)) = ('.' :: (part ++ taken), float, cs) := by
  have hstart : startsWithDigit (part ++ rest) = true := by
    obtain ⟨c, tail, hcons, hc⟩ := hpart.head rest
    rw [hcons]
    exact hc
  simp [splitNumber, hstart, splitNumber_digits hpart h]

/-- An exponent is taken with its sign. -/
theorem splitNumber_exponent (e : Int) (hrest : Delimited rest) (isFloat : Bool) (last : Char) :
    splitNumber isFloat last ('e' :: (Integer.chars e ++ rest)) =
      ('e' :: Integer.chars e, true, rest) := by
  have htaken : ∀ last, splitNumber true last (Nat.toDigits 10 e.natAbs ++ rest) =
      (Nat.toDigits 10 e.natAbs ++ [], true, rest) :=
    splitNumber_digits (.toDigits _) (splitNumber_delimited hrest true)
  unfold Integer.chars
  split
  · simp [splitNumber, htaken]
  · simp [splitNumber, htaken]

/-- Decimal text is taken as a whole and recognised as a float. -/
theorem splitNumber_spelled {d : Decimal} (h : Decimal.Spelled cs d) (hrest : Delimited rest)
    (last : Char) : splitNumber false last (cs ++ rest) = (cs, true, rest) := by
  cases h with
  | fraction hwhole hpart =>
      have hpoint := splitNumber_point hpart (splitNumber_delimited hrest true)
      rw [List.append_assoc, List.cons_append, splitNumber_digits hwhole hpoint, List.append_nil]
  | exponent hwhole e =>
      rw [List.append_assoc, List.cons_append,
        splitNumber_digits hwhole (splitNumber_exponent e hrest false)]
  | both hwhole hpart e =>
      have hpoint := splitNumber_point hpart (splitNumber_exponent e hrest true)
      rw [List.append_assoc, List.cons_append, List.append_assoc, List.cons_append,
        splitNumber_digits hwhole hpoint]

theorem isBlank_of_number {first : Char} (hfirst : first = '-' ∨ first.isDigit = true) :
    Text.isBlank first = false := by
  rcases hfirst with rfl | hdigit
  · rfl
  · exact isBlank_of_isWordChar (isWordChar_of_isDigit hdigit)

/-- A minus sign or a digit begins a number. -/
theorem scanToken_number {first : Char} (hfirst : first = '-' ∨ first.isDigit = true)
    (offset : Nat) (cs : List Char) : scanToken offset first cs = scanNumber offset first cs := by
  have hsigns : sign? first = none ∧ first ≠ '.' ∧ first ≠ '"' ∧ first ≠ '\'' := by
    rcases hfirst with rfl | hdigit
    · decide
    · exact ⟨sign?_of_isWordChar (isWordChar_of_isDigit hdigit),
        Integer.ne_of_isDigit hdigit (by decide), Integer.ne_of_isDigit hdigit (by decide),
        Integer.ne_of_isDigit hdigit (by decide)⟩
  obtain ⟨hsign, hpoint, hquote, hapostrophe⟩ := hsigns
  have hstart : (decide (first = '-') || first.isDigit) = true := by simpa using hfirst
  simp only [scanToken, hsign, hpoint, hquote, hapostrophe, decide_false, Bool.or_self,
    Bool.false_eq_true, if_false, hstart, if_true]

/-- A number is one token if its text is taken as a whole and can be read. -/
theorem lexes_number {first : Char} {t : Token} (hfirst : first = '-' ∨ first.isDigit = true)
    (hsplit : splitNumber false first cs = (taken, float, rest))
    (htoken : numberToken? float (first :: taken) = some t) :
    Lexes (first :: cs) [t] rest := by
  refine .token (isBlank_of_number hfirst)
    (fun offset => ⟨offset + (first :: taken).length, ?_⟩) (.refl rest)
  simp only [scanToken_number hfirst, scanNumber, hsplit, htoken]

/-- A sign and a number that begins with a digit are one token. -/
theorem lexes_signed (negative : Bool) {body : List Char} {t : Token}
    (hhead : ∃ c tail, body = c :: tail ∧ c.isDigit = true)
    (hsplit : ∀ last, splitNumber false last (body ++ rest) = (body, float, rest))
    (htoken : numberToken? float ((if negative then ['-'] else []) ++ body) = some t) :
    Lexes ((if negative then ['-'] else []) ++ body ++ rest) [t] rest := by
  cases negative with
  | true => exact lexes_number (.inl rfl) (hsplit '-') htoken
  | false =>
      -- The first digit is taken before the others are split off.
      obtain ⟨c, tail, rfl, hc⟩ := hhead
      have hfirst := hsplit c
      rw [List.cons_append, splitNumber_digit hc] at hfirst
      simp only [Prod.mk.injEq, List.cons.injEq, true_and] at hfirst
      exact lexes_number (.inr hc) (Prod.ext hfirst.1 hfirst.2) htoken

theorem filter_underscore {text : List Char} (h : '_' ∉ text) : text.filter (· != '_') = text := by
  rw [List.filter_eq_self]
  rintro c hc
  rw [bne_iff_ne]
  rintro rfl
  exact h hc

/-- An integer is scanned from its decimal text. -/
theorem lexes_integer (n : Int64) (hrest : Delimited rest) :
    Lexes (Integer.chars n.toInt ++ rest) [.integer n] rest := by
  have hdigits := IsNumeral.toDigits n.toInt.natAbs
  have hhead := hdigits.head []
  have hsplit := splitNumber_digits hdigits (splitNumber_delimited hrest false)
  rw [List.append_nil] at hhead hsplit
  rw [Integer.chars_eq]
  refine lexes_signed _ hhead hsplit ?_
  rw [← Integer.chars_eq, numberToken?, filter_underscore (Integer.underscore_not_mem_chars _)]
  simp [Integer.read?_chars]

/-- A finite number is scanned from its text. -/
theorem lexes_float {x : Binary64} (hfinite : x.isFinite = true) (hrest : Delimited rest) :
    Lexes (x.chars ++ rest) [.float x] rest := by
  obtain ⟨body, d, htext, hspelled, -⟩ := Binary64.chars_spelled hfinite
  have hunder : '_' ∉ x.chars := by
    rw [htext]
    cases x.negative <;> simp [hspelled.underscore_not_mem]
  have htoken : numberToken? true x.chars = some (.float x) := by
    rw [numberToken?, filter_underscore hunder]
    simp [Binary64.read?_chars hfinite, hfinite]
  rw [htext] at htoken ⊢
  exact lexes_signed _ hspelled.head (splitNumber_spelled hspelled hrest) htoken

end Numbers

end Pattern

end TreeLint

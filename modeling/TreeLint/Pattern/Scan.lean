import TreeLint.Pattern.Token
import TreeLint.Text.Offset
import TreeLint.Text.Whitespace

/-!
# Scanning pattern text

Pattern text is split into tokens before anything else, each token as long as
it can be.  Every scanner of one token leaves at most the text it was given, so
the scan of the whole text ends.
-/

namespace TreeLint

namespace Pattern

/-- A token with the text behind it and the byte offset of that text. -/
structure Lexeme where
  token : Token
  rest : List Char
  offset : Nat
deriving Repr

def sign? : Char → Option Token
  | '(' => some .openParen
  | ')' => some .closeParen
  | '\x7b' => some .openBrace
  | '\x7d' => some .closeBrace
  | '|' => some .bar
  | ',' => some .comma
  | '!' => some .bang
  | '^' => some .caret
  | _ => none

/-- The rest of an ellipsis whose first point stands at offset `start`. -/
def scanEllipsis (start : Nat) : List Char → Except Fault Lexeme
  | '.' :: '.' :: rest => .ok ⟨.ellipsis, rest, start + 3⟩
  | ['.'] => .error ⟨.unexpectedEnd .ellipsis, start⟩
  | '.' :: c :: _ => .error ⟨.unexpectedCharacter c, start + 2⟩
  | c :: _ => .error ⟨.unexpectedCharacter c, start + 1⟩
  | [] => .error ⟨.unexpectedEnd .ellipsis, start⟩

def shortEscape? : Char → Option Char
  | 'n' => some '\n'
  | 't' => some '\t'
  | 'r' => some '\r'
  | '0' => some (Char.ofNat 0)
  | '\\' => some '\\'
  | '"' => some '"'
  | '\'' => some '\''
  | _ => none

def isHexDigit (c : Char) : Bool :=
  (Integer.digitBelow? 16 c).isSome

def charOfNumber? (n : Nat) : Option Char :=
  if n.isValidChar then some (Char.ofNat n) else none

/-- The braced number behind `\u`: its character, the text behind it, and its bytes. -/
def scanNumberEscape? : List Char → Option (Char × List Char × Nat)
  | '\x7b' :: cs =>
      let digits := cs.takeWhile isHexDigit
      match cs.dropWhile isHexDigit with
      | '\x7d' :: rest =>
          ((Integer.readNat? 16 digits).bind charOfNumber?).map
            fun c => (c, rest, digits.length + 2)
      | _ => none
  | _ => none

theorem length_dropWhile_le (p : Char → Bool) (cs : List Char) :
    (cs.dropWhile p).length ≤ cs.length :=
  (List.dropWhile_suffix p).length_le

theorem scanNumberEscape?_length {cs rest : List Char} {c : Char} {n : Nat}
    (h : scanNumberEscape? cs = some (c, rest, n)) : rest.length < cs.length := by
  unfold scanNumberEscape? at h
  split at h
  · rename_i cs'
    simp only at h
    split at h
    · rename_i tail heq
      simp only [Option.map_eq_some_iff, Prod.mk.injEq] at h
      obtain ⟨_, _, _, rfl, _⟩ := h
      have hle := length_dropWhile_le isHexDigit cs'
      rw [heq] at hle
      simp only [List.length_cons] at hle ⊢
      omega
    · simp at h
  · simp at h

/--
The rest of a string whose quote stands at offset `start`; `acc` holds the
characters read so far, the last one first.
-/
def scanString (quote : Char) (start : Nat) (acc : List Char) (cs : List Char)
    (offset : Nat) : Except Fault Lexeme :=
  match cs with
  | [] => .error ⟨.unterminatedString, start⟩
  | c :: rest =>
      if c = quote then .ok ⟨.string (String.ofList acc.reverse), rest, offset + 1⟩
      else if c = '\\' then
        match rest with
        | [] => .error ⟨.unterminatedString, offset⟩
        | e :: tail =>
            match shortEscape? e with
            | some d => scanString quote start (d :: acc) tail (offset + 2)
            | none =>
                if e = 'u' then
                  match h : scanNumberEscape? tail with
                  | some (d, tail', bytes) =>
                      have := scanNumberEscape?_length h
                      scanString quote start (d :: acc) tail' (offset + 2 + bytes)
                  | none => .error ⟨.invalidEscape 'u', offset⟩
                else .error ⟨.invalidEscape e, offset⟩
      else scanString quote start (c :: acc) rest (offset + c.utf8Size)
termination_by cs.length

section ScanString

variable (quote : Char) (start : Nat) (acc : List Char) (offset : Nat)

theorem scanString_nil :
    scanString quote start acc [] offset = .error ⟨.unterminatedString, start⟩ := by
  rw [scanString.eq_def]

theorem scanString_quote (rest : List Char) :
    scanString quote start acc (quote :: rest) offset =
      .ok ⟨.string (String.ofList acc.reverse), rest, offset + 1⟩ := by
  rw [scanString.eq_def]
  simp only [if_true]

variable {quote}

theorem scanString_plain {c : Char} (hquote : c ≠ quote) (hslash : c ≠ '\\')
    (rest : List Char) :
    scanString quote start acc (c :: rest) offset =
      scanString quote start (c :: acc) rest (offset + c.utf8Size) := by
  rw [scanString.eq_def]
  simp only [hquote, hslash, if_false]

variable (hquote : '\\' ≠ quote)
include hquote

theorem scanString_slash :
    scanString quote start acc ['\\'] offset = .error ⟨.unterminatedString, offset⟩ := by
  rw [scanString.eq_def]
  simp only [hquote, if_false, if_true]

theorem scanString_short {e d : Char} (hshort : shortEscape? e = some d) (rest : List Char) :
    scanString quote start acc ('\\' :: e :: rest) offset =
      scanString quote start (d :: acc) rest (offset + 2) := by
  rw [scanString.eq_def]
  simp only [hquote, hshort, if_false, if_true]

theorem scanString_number {d : Char} {tail rest : List Char} {bytes : Nat}
    (hnumber : scanNumberEscape? tail = some (d, rest, bytes)) :
    scanString quote start acc ('\\' :: 'u' :: tail) offset =
      scanString quote start (d :: acc) rest (offset + 2 + bytes) := by
  have hshort : shortEscape? 'u' = none := rfl
  rw [scanString.eq_def]
  simp only [hquote, hshort, if_false, if_true]
  split
  · rename_i hsome
    rw [hnumber] at hsome
    cases hsome
    rfl
  · rename_i hnone
    rw [hnumber] at hnone
    cases hnone

theorem scanString_noNumber {tail : List Char} (hnumber : scanNumberEscape? tail = none) :
    scanString quote start acc ('\\' :: 'u' :: tail) offset =
      .error ⟨.invalidEscape 'u', offset⟩ := by
  have hshort : shortEscape? 'u' = none := rfl
  rw [scanString.eq_def]
  simp only [hquote, hshort, if_false, if_true]
  split
  · rename_i hsome
    rw [hnumber] at hsome
    cases hsome
  · rfl

theorem scanString_noEscape {e : Char} (hshort : shortEscape? e = none) (hu : e ≠ 'u')
    (tail : List Char) :
    scanString quote start acc ('\\' :: e :: tail) offset = .error ⟨.invalidEscape e, offset⟩ := by
  rw [scanString.eq_def]
  simp only [hquote, hshort, hu, if_false, if_true]

end ScanString

def startsWithDigit : List Char → Bool
  | c :: _ => c.isDigit
  | [] => false

/--
The characters that continue a number, whether they make it a float, and the
text behind them.  `isFloat` says whether a point or an exponent was met, and
`last` is the character before.
-/
def splitNumber (isFloat : Bool) (last : Char) : List Char → List Char × Bool × List Char
  | [] => ([], isFloat, [])
  | c :: cs =>
      let continued (float : Bool) : List Char × Bool × List Char :=
        let (taken, float, rest) := splitNumber float c cs
        (c :: taken, float, rest)
      if c.isDigit || c == '_' then continued isFloat
      else if c == '.' && !isFloat && startsWithDigit cs then continued true
      else if c == 'e' || c == 'E' then continued true
      else if (c == '+' || c == '-') && (last == 'e' || last == 'E') then continued isFloat
      else ([], isFloat, c :: cs)

/-- The token of a number's text: an integer of 64 bits or a finite float. -/
def numberToken? (isFloat : Bool) (raw : List Char) : Option Token :=
  let digits := raw.filter (· != '_')
  if isFloat then
    ((Binary64.read? digits).filter Binary64.isFinite).map .float
  else (Integer.read? 10 digits).map .integer

/-- A number whose first character stands at offset `start`. -/
def scanNumber (start : Nat) (first : Char) (cs : List Char) : Except Fault Lexeme :=
  let (taken, isFloat, rest) := splitNumber false first cs
  let raw := first :: taken
  match numberToken? isFloat raw with
  | some token => .ok ⟨token, rest, start + raw.length⟩
  | none => .error ⟨.invalidNumber (String.ofList raw), start⟩

def isWordStart (c : Char) : Bool :=
  c.isAlpha || c == '_'

def isWordChar (c : Char) : Bool :=
  c.isAlphanum || c == '_'

def wordToken (word : String) : Token :=
  if word = "_" then .underscore
  else if word = "true" then .true
  else if word = "false" then .false
  else if word = "nil" then .nil
  else .name word

/-- A word whose first character stands at offset `start`. -/
def scanWord (start : Nat) (first : Char) (cs : List Char) : Lexeme :=
  let word := first :: cs.takeWhile isWordChar
  ⟨wordToken (String.ofList word), cs.dropWhile isWordChar, start + word.length⟩

def scanToken (offset : Nat) (c : Char) (cs : List Char) : Except Fault Lexeme :=
  match sign? c with
  | some token => .ok ⟨token, cs, offset + 1⟩
  | none =>
      if c = '.' then scanEllipsis offset cs
      else if c = '"' || c = '\'' then scanString c offset [] cs (offset + 1)
      else if c = '-' || c.isDigit then scanNumber offset c cs
      else if isWordStart c then .ok (scanWord offset c cs)
      else .error ⟨.unexpectedCharacter c, offset⟩

inductive ScannedBy (c : Char) : (Nat → List Char → Except Fault Lexeme) → Prop
  | sign {t : Token} (h : sign? c = some t) : ScannedBy c fun offset cs => .ok ⟨t, cs, offset + 1⟩
  | ellipsis (h : c = '.') : ScannedBy c scanEllipsis
  | string (h : c = '"' ∨ c = '\'') :
      ScannedBy c fun offset cs => scanString c offset [] cs (offset + 1)
  | number (h : c = '-' ∨ c.isDigit = true) : ScannedBy c fun offset cs => scanNumber offset c cs
  | word (h : isWordStart c = true) : ScannedBy c fun offset cs => .ok (scanWord offset c cs)
  | none : ScannedBy c fun offset _ => .error ⟨.unexpectedCharacter c, offset⟩

/-- The first character alone decides which scanner is used. -/
theorem exists_scannedBy (c : Char) :
    ∃ scanner, ScannedBy c scanner ∧ ∀ offset cs, scanToken offset c cs = scanner offset cs := by
  cases hsign : sign? c with
  | some t => exact ⟨_, .sign hsign, fun offset cs => by simp only [scanToken, hsign]⟩
  | none =>
      by_cases hpoint : c = '.'
      · exact ⟨_, .ellipsis hpoint, fun offset cs => by simp only [scanToken, hsign, if_pos hpoint]⟩
      by_cases hquote : (decide (c = '"') || decide (c = '\'')) = true
      · refine ⟨_, .string (by simpa using hquote), fun offset cs => ?_⟩
        simp only [scanToken, hsign, if_neg hpoint, if_pos hquote]
      by_cases hnumber : (decide (c = '-') || c.isDigit) = true
      · refine ⟨_, .number (by simpa using hnumber), fun offset cs => ?_⟩
        simp only [scanToken, hsign, if_neg hpoint, if_neg hquote, if_pos hnumber]
      by_cases hword : isWordStart c = true
      · refine ⟨_, .word hword, fun offset cs => ?_⟩
        simp only [scanToken, hsign, if_neg hpoint, if_neg hquote, if_neg hnumber, if_pos hword]
      · refine ⟨_, .none, fun offset cs => ?_⟩
        simp only [scanToken, hsign, if_neg hpoint, if_neg hquote, if_neg hnumber, if_neg hword]

theorem scanEllipsis_length {start : Nat} {cs : List Char} {l : Lexeme}
    (h : scanEllipsis start cs = .ok l) : l.rest.length ≤ cs.length := by
  unfold scanEllipsis at h
  split at h <;> simp at h
  subst h
  simp
  omega

theorem scanString_length {quote : Char} {start offset : Nat} {acc cs : List Char} {l : Lexeme}
    (h : scanString quote start acc cs offset = .ok l) : l.rest.length ≤ cs.length := by
  fun_induction scanString quote start acc cs offset with
  | case1 => simp at h
  | case2 => simp at h; subst h; simp
  | case3 => simp at h
  | case4 _ _ _ _ _ _ _ ih => have := ih h; simp; omega
  | case5 _ _ _ _ _ _ _ _ _ _ ih => have := ih h; simp; omega
  | case6 => simp at h
  | case7 => simp at h
  | case8 _ _ _ _ _ _ ih => have := ih h; simp; omega

theorem splitNumber_append (isFloat : Bool) (last : Char) (cs : List Char) :
    (splitNumber isFloat last cs).1 ++ (splitNumber isFloat last cs).2.2 = cs := by
  induction cs generalizing isFloat last with
  | nil =>
      simp [splitNumber]
  | cons c cs ih =>
      simp only [splitNumber]
      split
      · simp [ih]
      · split
        · simp [ih]
        · split
          · simp [ih]
          · split <;> simp [ih]

theorem scanNumber_length {start : Nat} {first : Char} {cs : List Char} {l : Lexeme}
    (h : scanNumber start first cs = .ok l) : l.rest.length ≤ cs.length := by
  have happend := congrArg List.length (splitNumber_append false first cs)
  simp only [scanNumber] at h
  split at h
  · simp only [Except.ok.injEq] at h
    subst h
    simp only [List.length_append] at happend
    show (splitNumber false first cs).2.2.length ≤ cs.length
    omega
  · simp at h

theorem scanToken_length {offset : Nat} {c : Char} {cs : List Char} {l : Lexeme}
    (h : scanToken offset c cs = .ok l) : l.rest.length ≤ cs.length := by
  obtain ⟨scanner, hscanner, heq⟩ := exists_scannedBy c
  rw [heq] at h
  cases hscanner with
  | sign =>
      cases h
      exact Nat.le_refl _
  | ellipsis => exact scanEllipsis_length h
  | string => exact scanString_length h
  | number => exact scanNumber_length h
  | word =>
      cases h
      exact length_dropWhile_le isWordChar cs
  | none => cases h

/-- The tokens of the text that begins at the given offset, closed by `stop`. -/
def scanFrom (cs : List Char) (offset : Nat) : Except Fault (List Located) :=
  match cs with
  | [] => .ok [⟨.stop, offset⟩]
  | c :: rest =>
      if Text.isBlank c then scanFrom rest (offset + c.utf8Size)
      else
        match h : scanToken offset c rest with
        | .error fault => .error fault
        | .ok lexeme =>
            have := scanToken_length h
            match scanFrom lexeme.rest lexeme.offset with
            | .error fault => .error fault
            | .ok tokens => .ok (⟨lexeme.token, offset⟩ :: tokens)
termination_by cs.length

theorem scanFrom_nil (offset : Nat) : scanFrom [] offset = .ok [⟨.stop, offset⟩] := by
  rw [scanFrom.eq_def]

theorem scanFrom_blank {c : Char} (hblank : Text.isBlank c = true) (rest : List Char)
    (offset : Nat) : scanFrom (c :: rest) offset = scanFrom rest (offset + c.utf8Size) := by
  rw [scanFrom.eq_def]
  simp only [hblank, if_true]

theorem scanFrom_fault {c : Char} {rest : List Char} {offset : Nat} {fault : Fault}
    (hblank : ¬ Text.isBlank c = true) (h : scanToken offset c rest = .error fault) :
    scanFrom (c :: rest) offset = .error fault := by
  rw [scanFrom.eq_def]
  simp only [hblank, Bool.false_eq_true, if_false]
  split
  · rename_i fault' hfault
    rw [h] at hfault
    cases hfault
    rfl
  · rename_i lexeme hlexeme
    rw [h] at hlexeme
    cases hlexeme

theorem scanFrom_token {c : Char} {rest : List Char} {offset : Nat} {lexeme : Lexeme}
    (hblank : ¬ Text.isBlank c = true) (h : scanToken offset c rest = .ok lexeme) :
    scanFrom (c :: rest) offset =
      (scanFrom lexeme.rest lexeme.offset).map (⟨lexeme.token, offset⟩ :: ·) := by
  rw [scanFrom.eq_def]
  simp only [hblank, Bool.false_eq_true, if_false]
  split
  · rename_i fault hfault
    rw [h] at hfault
    cases hfault
  · rename_i lexeme' hlexeme
    rw [h] at hlexeme
    cases hlexeme
    cases scanFrom lexeme.rest lexeme.offset <;> rfl

/-- The tokens of a pattern text, closed by `stop`. -/
def scan (text : String) : Except Fault (List Located) :=
  scanFrom text.toList 0

end Pattern

end TreeLint

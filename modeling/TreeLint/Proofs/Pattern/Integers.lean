import TreeLint.Proofs.Number.Numeral
import TreeLint.Proofs.Pattern.Separation

/-!
# Integer patterns

A decimal integer with underscores among its digits is scanned as one token, which
holds the number that the digits denote.  An integer that a word of 64 bits cannot
hold is a fault at its first character.
-/

namespace TreeLint

namespace Pattern

/-- Perhaps a minus sign, then a digit, then further digits and underscores. -/
structure WrittenInteger where
  negative : Bool
  first : Char
  more : List Char
  first_isDigit : first.isDigit = true
  more_grouped : ∀ c ∈ more, c.isDigit = true ∨ c = '_'

namespace WrittenInteger

def body (w : WrittenInteger) : List Char :=
  w.first :: w.more

def chars (w : WrittenInteger) : List Char :=
  (if w.negative then ['-'] else []) ++ w.body

def text (w : WrittenInteger) : String :=
  String.ofList w.chars

def digits (w : WrittenInteger) : List Char :=
  w.body.filter (· != '_')

def value (w : WrittenInteger) : Int :=
  if w.negative then -(Integer.numeralValue 10 w.digits : Int)
  else Integer.numeralValue 10 w.digits

variable (w : WrittenInteger)

theorem isNumeralIn_digits : Integer.IsNumeralIn 10 w.digits := by
  have hfirst : w.first ∈ w.digits := by
    have hne := Integer.ne_of_isDigit w.first_isDigit (d := '_') (by decide)
    simp [digits, body, hne]
  refine ⟨List.ne_nil_of_mem hfirst, ?_⟩
  intro c hc
  obtain ⟨hmem, hne⟩ := List.mem_filter.1 hc
  apply Integer.digitNumber_of_isDigit
  rcases List.mem_cons.1 hmem with rfl | hmore
  · exact w.first_isDigit
  · exact (w.more_grouped c hmore).resolve_right (by simpa using hne)

/-- The first character begins a number, and digits and underscores stand behind it. -/
theorem exists_chars_eq : ∃ c taken, w.chars = c :: taken ∧ (c = '-' ∨ c.isDigit = true) ∧
    ∀ d ∈ taken, d.isDigit = true ∨ d = '_' := by
  cases hsign : w.negative with
  | true =>
      refine ⟨'-', w.body, by simp [chars, hsign], .inl rfl, ?_⟩
      intro d hd
      rcases List.mem_cons.1 hd with rfl | hmore
      · exact .inl w.first_isDigit
      · exact w.more_grouped d hmore
  | false =>
      exact ⟨w.first, w.more, by simp [chars, body, hsign], .inr w.first_isDigit, w.more_grouped⟩

theorem filter_chars :
    w.chars.filter (· != '_') = (if w.negative then ['-'] else []) ++ w.digits := by
  rw [chars, List.filter_append, digits]
  cases w.negative <;> rfl

/-- The token is the denoted integer if a word can hold it. -/
theorem numberToken?_eq :
    numberToken? false w.chars = (Integer.toWord? w.value).map .integer := by
  have hread := w.isNumeralIn_digits.read? (by decide) w.negative
  simp only [numberToken?, w.filter_chars, Bool.false_eq_true, if_false, hread, value]

end WrittenInteger

/-- Digits and underscores are taken as they are and make no float. -/
theorem splitNumber_grouped {cs rest : List Char} (hcs : ∀ c ∈ cs, c.isDigit = true ∨ c = '_')
    (hrest : Delimited rest) (last : Char) :
    splitNumber false last (cs ++ rest) = (cs, false, rest) := by
  induction cs generalizing last with
  | nil => exact splitNumber_delimited hrest false last
  | cons c cs ih =>
      have htail := ih (fun d hd => hcs d (List.mem_cons_of_mem c hd)) c
      have hc : (c.isDigit || c == '_') = true := by
        simpa using hcs c List.mem_cons_self
      rw [List.cons_append, splitNumber_cons]
      simp only [numberGoesOn?, hc, if_true, htail]

/-- An integer is one token with its value, or a fault at its first character. -/
theorem scanFrom_written (w : WrittenInteger) {rest : List Char} (hrest : Delimited rest)
    (offset : Nat) :
    scanFrom (w.chars ++ rest) offset =
      match Integer.toWord? w.value with
      | some n => (scanFrom rest (offset + w.chars.length)).map (⟨.integer n, offset⟩ :: ·)
      | none => .error ⟨.invalidNumber w.text, offset⟩ := by
  obtain ⟨c, taken, hchars, hc, htaken⟩ := w.exists_chars_eq
  have hvisible : ¬ Text.isBlank c = true := by simp [isBlank_of_number hc]
  have htoken := w.numberToken?_eq
  rw [WrittenInteger.text]
  rw [hchars] at htoken ⊢
  cases hword : Integer.toWord? w.value with
  | some n =>
      rw [hword] at htoken
      have hscan : scanToken offset c (taken ++ rest) =
          .ok ⟨.integer n, rest, offset + (c :: taken).length⟩ := by
        simp only [scanToken_number hc, scanNumber, splitNumber_grouped htaken hrest, htoken,
          Option.map_some]
      exact scanFrom_token hvisible hscan
  | none =>
      rw [hword] at htoken
      have hscan : scanToken offset c (taken ++ rest) =
          .error ⟨.invalidNumber (String.ofList (c :: taken)), offset⟩ := by
        simp only [scanToken_number hc, scanNumber, splitNumber_grouped htaken hrest, htoken,
          Option.map_none]
      exact scanFrom_fault hvisible hscan

theorem utf8ByteSize_text (w : WrittenInteger) : w.text.utf8ByteSize = w.chars.length := by
  have hascii : ∀ d ∈ w.chars, d.toNat < 128 := by
    obtain ⟨c, taken, hchars, hc, htaken⟩ := w.exists_chars_eq
    have hdigit : ∀ d : Char, d.isDigit = true → d.toNat < 128 := fun d hd =>
      toNat_lt_of_isWordChar (isWordChar_of_isDigit hd)
    intro d hd
    rw [hchars, List.mem_cons] at hd
    rcases hd with rfl | hd
    · rcases hc with rfl | hc
      · decide
      · exact hdigit d hc
    · rcases htaken d hd with hd | rfl
      · exact hdigit d hd
      · decide
  rw [← Text.byteLength_toList, WrittenInteger.text, String.toList_ofList,
    Text.byteLength_of_ascii hascii]

/-- The same for a whole text. -/
theorem scan_written (w : WrittenInteger) {u : String} (hu : Delimited u.toList) :
    scan (w.text ++ u) =
      match Integer.toWord? w.value with
      | some n => (scanFrom u.toList w.text.utf8ByteSize).map (⟨.integer n, 0⟩ :: ·)
      | none => .error ⟨.invalidNumber w.text, 0⟩ := by
  have hchars : (w.text ++ u).toList = w.chars ++ u.toList := by
    rw [String.toList_append, WrittenInteger.text, String.toList_ofList]
  rw [scan, hchars, scanFrom_written w hu, utf8ByteSize_text, Nat.zero_add]

theorem compile_written {w : WrittenInteger} {n : Int64}
    (hword : Integer.toWord? w.value = some n) :
    compile w.text = .ok (.literal (.integer n)) := by
  have hscan := scan_written w (u := "") trivial
  rw [hword, String.append_empty] at hscan
  have htokens : scan w.text =
      .ok ([⟨.integer n, 0⟩] ++ [⟨.stop, w.text.utf8ByteSize⟩]) := by
    simp only [hscan, String.toList_empty, scanFrom_nil]
    rfl
  have hstop : .stop ∉ words [(⟨.integer n, 0⟩ : Located)] := by simp
  exact (compile_of_scan htokens).2 ((parseTokens_eq_ok hstop).2 (.primary (.integer n)))

theorem compile_written_fault {w : WrittenInteger} (hword : Integer.toWord? w.value = none) :
    compile w.text = .error ⟨w.text, ⟨.invalidNumber w.text, 0⟩⟩ := by
  have hscan := scan_written w (u := "") trivial
  rw [hword, String.append_empty] at hscan
  simp only [compile, hscan]

/-! ## What stands behind an integer -/

/-- A text that begins with white space, with a sign of one character or with an ellipsis. -/
inductive SetApart : List Char → Prop
  | blank {c : Char} (h : Text.isBlank c = true) (rest : List Char) : SetApart (c :: rest)
  | sign {c : Char} (h : c ∈ ['(', ')', '\x7b', '\x7d', '|', ',', '!', '^']) (rest : List Char) :
      SetApart (c :: rest)
  | ellipsis (rest : List Char) : SetApart ('.' :: '.' :: '.' :: rest)

theorem SetApart.delimited {cs : List Char} (h : SetApart cs) : Delimited cs := by
  cases h with
  | @blank c hblank rest =>
      exact delimited_of_blank (List.cons_ne_nil c []) (by simpa using hblank) rest
  | @sign c hsign rest =>
      have hall : (['(', ')', '\x7b', '\x7d', '|', ',', '!', '^'].all fun c =>
          !isWordChar c && decide (c ∉ ['+', '-', '.'])) = true := by decide
      have hc := List.all_eq_true.1 hall c hsign
      simp only [Bool.and_eq_true, Bool.not_eq_true', decide_eq_true_eq] at hc
      exact delimited_cons hc.1 hc.2 rest
  | ellipsis rest => exact ⟨by decide, by decide, by decide, fun _ => rfl⟩

/--
An integer within 64 bits is compiled to its value, and in front of a text that
sets it apart it is the first token, with the tokens of that text behind it.  Any
other integer is refused as a whole at its first character, also there.
-/
theorem integer_pattern_exact (w : WrittenInteger) :
    (-2 ^ 63 ≤ w.value ∧ w.value ≤ 2 ^ 63 - 1 → ∃ n : Int64, n.toInt = w.value ∧
      compile w.text = .ok (.literal (.integer n)) ∧
      ∀ u : String, SetApart u.toList → scan (w.text ++ u) =
        (scanFrom u.toList w.text.utf8ByteSize).map (⟨.integer n, 0⟩ :: ·)) ∧
      (¬ (-2 ^ 63 ≤ w.value ∧ w.value ≤ 2 ^ 63 - 1) →
        compile w.text = .error ⟨w.text, ⟨.invalidNumber w.text, 0⟩⟩ ∧
        ∀ u : String, SetApart u.toList →
          scan (w.text ++ u) = .error ⟨.invalidNumber w.text, 0⟩) := by
  constructor
  · rintro ⟨hlow, hhigh⟩
    obtain ⟨n, hword, hn⟩ := Integer.exists_toWord? hlow hhigh
    refine ⟨n, hn, compile_written hword, ?_⟩
    intro u hu
    rw [scan_written w hu.delimited, hword]
  · intro hout
    have hword := Integer.toWord?_eq_none hout
    refine ⟨compile_written_fault hword, ?_⟩
    intro u hu
    rw [scan_written w hu.delimited, hword]

def leastWord : WrittenInteger where
  negative := true
  first := '0'
  more := "_9223372036854_775808__".toList
  first_isDigit := rfl
  more_grouped := by simp

def belowLeastWord : WrittenInteger where
  negative := true
  first := '9'
  more := "22337203685477580_9".toList
  first_isDigit := rfl
  more_grouped := by simp

theorem compile_leastWord :
    compile "-0_9223372036854_775808__" = .ok (.literal (.integer Int64.minValue)) ∧
      scan "-0_9223372036854_775808__...)" =
        .ok [⟨.integer Int64.minValue, 0⟩, ⟨.ellipsis, 25⟩, ⟨.closeParen, 28⟩, ⟨.stop, 29⟩] ∧
      scan "-922337203685477580_9\n" = .error ⟨.invalidNumber "-922337203685477580_9", 0⟩ := by
  have hleast : leastWord.value = -2 ^ 63 := by decide +kernel
  have hbelow : belowLeastWord.value = -2 ^ 63 - 1 := by decide +kernel
  obtain ⟨n, hn, hcompile, hscan⟩ := (integer_pattern_exact leastWord).1 (by omega)
  obtain rfl : n = Int64.minValue := Int64.toInt_inj.1 (hn.trans hleast)
  refine ⟨hcompile, ?_, ?_⟩
  · have hrest : scanFrom "...)".toList leastWord.text.utf8ByteSize =
        .ok [⟨.ellipsis, 25⟩, ⟨.closeParen, 28⟩, ⟨.stop, 29⟩] := by decide +kernel
    have hspread := hscan "...)" (.ellipsis [')'])
    rw [hrest] at hspread
    exact hspread
  · exact ((integer_pattern_exact belowLeastWord).2 (by omega)).2 "\n" (.blank rfl [])

end Pattern

end TreeLint

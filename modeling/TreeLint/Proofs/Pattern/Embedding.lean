import TreeLint.Proofs.Pattern.Canonical

/-!
# Pattern text inside a longer text

Scanning does not depend on where a text begins, and what stands behind a
delimiter does not change the tokens in front of it.  So a text that compiles
keeps its meaning wherever it is put in front of a delimiter, and compiled texts
between braces with bars between them are the choice of their patterns.
-/

namespace TreeLint

namespace Pattern

/-! ## Texts that begin further on -/

/-- The token, `k` bytes further on. -/
def Located.shift (k : Nat) (t : Located) : Located :=
  ⟨t.token, t.offset + k⟩

def Lexeme.shift (k : Nat) (l : Lexeme) : Lexeme :=
  ⟨l.token, l.rest, l.offset + k⟩

def Fault.shift (k : Nat) (f : Fault) : Fault :=
  ⟨f.cause, f.position + k⟩

/-- A result of scanning, `k` bytes further on. -/
def shiftResult {α : Type} (move : Nat → α → α) (k : Nat) : Except Fault α → Except Fault α
  | .ok a => .ok (move k a)
  | .error fault => .error (fault.shift k)

theorem words_map_shift (k : Nat) (tokens : List Located) :
    words (tokens.map (Located.shift k)) = words tokens := by
  simp [words, Function.comp_def, Located.shift]

theorem scanEllipsis_shift (start k : Nat) (cs : List Char) :
    scanEllipsis (start + k) cs = shiftResult Lexeme.shift k (scanEllipsis start cs) := by
  unfold scanEllipsis
  split <;> simp [shiftResult, Lexeme.shift, Fault.shift, Nat.add_right_comm]

theorem scanString_shift (quote : Char) (start k : Nat) (acc cs : List Char) (offset : Nat) :
    scanString quote (start + k) acc cs (offset + k) =
      shiftResult Lexeme.shift k (scanString quote start acc cs offset) := by
  fun_induction scanString quote start acc cs offset with
  | case1 => exact scanString_nil ..
  | case2 acc offset rest =>
      rw [scanString_quote, Nat.add_right_comm]
      rfl
  | case3 acc offset hquote => exact scanString_slash _ _ _ hquote
  | case4 acc offset e tail d hshort hquote ih =>
      rw [scanString_short _ _ _ hquote hshort, Nat.add_right_comm, ih]
  | case5 acc offset tail d tail' bytes hnumber _ hquote _ ih =>
      have hsum : offset + k + 2 + bytes = offset + 2 + bytes + k := by omega
      rw [scanString_number _ _ _ hquote hnumber, hsum, ih]
  | case6 acc offset tail hnumber hquote _ => exact scanString_noNumber _ _ _ hquote hnumber
  | case7 acc offset e tail hshort hu hquote =>
      exact scanString_noEscape _ _ _ hquote hshort hu tail
  | case8 acc offset c rest hquote hslash ih =>
      rw [scanString_plain _ _ _ hquote hslash, Nat.add_right_comm, ih]

theorem scanNumber_shift (start k : Nat) (first : Char) (cs : List Char) :
    scanNumber (start + k) first cs = shiftResult Lexeme.shift k (scanNumber start first cs) := by
  simp only [scanNumber]
  split
  · simp [shiftResult, Lexeme.shift, Nat.add_right_comm]
  · rfl

theorem scanToken_shift (offset k : Nat) (c : Char) (cs : List Char) :
    scanToken (offset + k) c cs = shiftResult Lexeme.shift k (scanToken offset c cs) := by
  obtain ⟨scanner, hscanner, heq⟩ := exists_scannedBy c
  rw [heq, heq]
  cases hscanner with
  | sign => simp [shiftResult, Lexeme.shift, Nat.add_right_comm]
  | ellipsis => exact scanEllipsis_shift offset k cs
  | string =>
      have hshift := scanString_shift c offset k [] cs (offset + 1)
      rw [Nat.add_right_comm] at hshift
      exact hshift
  | number => exact scanNumber_shift offset k c cs
  | word => simp [shiftResult, Lexeme.shift, scanWord, Nat.add_right_comm]
  | none => rfl

theorem scanToken_shift_ok {offset : Nat} {c : Char} {cs : List Char} {l : Lexeme}
    (h : scanToken offset c cs = .ok l) (k : Nat) :
    scanToken (offset + k) c cs = .ok (l.shift k) := by
  rw [scanToken_shift, h]
  rfl

/-- A text that begins `k` bytes further on has the same tokens or the same fault there. -/
theorem scanFrom_shift (cs : List Char) (offset k : Nat) :
    scanFrom cs (offset + k) =
      shiftResult (fun k => List.map (Located.shift k)) k (scanFrom cs offset) := by
  fun_induction scanFrom cs offset with
  | case1 offset => exact scanFrom_nil (offset + k)
  | case2 offset c rest hblank ih =>
      rw [scanFrom_blank hblank, Nat.add_right_comm, ih]
  | case3 offset c rest hblank fault hfault =>
      have hshifted : scanToken (offset + k) c rest = .error (fault.shift k) := by
        rw [scanToken_shift, hfault]
        rfl
      exact scanFrom_fault hblank hshifted
  | case4 offset c rest hblank lexeme hlexeme _ fault hfault ih =>
      rw [scanFrom_token hblank (scanToken_shift_ok hlexeme k), Lexeme.shift, ih, hfault]
      rfl
  | case5 offset c rest hblank lexeme hlexeme _ tokens htokens ih =>
      rw [scanFrom_token hblank (scanToken_shift_ok hlexeme k), Lexeme.shift, ih, htokens]
      rfl

/-! ## Texts that go on -/

/-- The token, with more text behind the text that stood behind it. -/
def Lexeme.followedBy (l : Lexeme) (more : List Char) : Lexeme :=
  ⟨l.token, l.rest ++ more, l.offset⟩

section Append

variable {cs more : List Char} {l : Lexeme}

theorem scanEllipsis_append {start : Nat} (h : scanEllipsis start cs = .ok l)
    (more : List Char) : scanEllipsis start (cs ++ more) = .ok (l.followedBy more) := by
  unfold scanEllipsis at h
  split at h
  · cases h
    rfl
  all_goals cases h

/-- A string is decided by its own text. -/
theorem scanString_own {quote : Char} {start offset : Nat} {acc : List Char}
    (h : scanString quote start acc cs offset = .ok l) :
    ∃ own, cs = own ++ l.rest ∧
      ∀ rest, scanString quote start acc (own ++ rest) offset = .ok ⟨l.token, rest, l.offset⟩ := by
  fun_induction scanString quote start acc cs offset with
  | case2 acc offset rest =>
      cases h
      exact ⟨[quote], rfl, scanString_quote quote start acc offset⟩
  | case4 acc offset e tail d hshort hquote ih =>
      obtain ⟨own, htail, hown⟩ := ih h
      refine ⟨'\\' :: e :: own, by rw [htail]; rfl, fun rest => ?_⟩
      rw [← hown rest]
      exact scanString_short start acc offset hquote hshort (own ++ rest)
  | case5 acc offset tail d tail' bytes hnumber _ hquote _ ih =>
      obtain ⟨digits, n, rfl, hdigits, hchar, rfl⟩ := scanNumberEscape?_eq_some hnumber
      obtain ⟨own, htail, hown⟩ := ih h
      refine ⟨'\\' :: 'u' :: '\x7b' :: (digits ++ '\x7d' :: own), by simp [htail], fun rest => ?_⟩
      rw [← hown rest, List.cons_append, List.cons_append, List.cons_append, List.append_assoc,
        List.cons_append]
      exact scanString_number start acc offset hquote
        (scanNumberEscape?_eq hdigits hchar (own ++ rest))
  | case8 acc offset c rest hquote hslash ih =>
      obtain ⟨own, hrest, hown⟩ := ih h
      refine ⟨c :: own, by rw [hrest]; rfl, fun rest => ?_⟩
      rw [← hown rest]
      exact scanString_plain start acc offset hquote hslash (own ++ rest)
  | _ => cases h

theorem scanString_append {quote : Char} {start offset : Nat} {acc : List Char}
    (h : scanString quote start acc cs offset = .ok l) (more : List Char) :
    scanString quote start acc (cs ++ more) offset = .ok (l.followedBy more) := by
  obtain ⟨own, hcs, hown⟩ := scanString_own h
  rw [hcs, List.append_assoc, hown]
  rfl

variable (hmore : Delimited more)
include hmore

theorem startsWithDigit_append (cs : List Char) :
    startsWithDigit (cs ++ more) = startsWithDigit cs := by
  cases cs with
  | cons c cs => rfl
  | nil =>
      cases more with
      | nil => rfl
      | cons d ds =>
          show d.isDigit = false
          rw [Bool.eq_false_iff]
          intro hdigit
          have hword := hmore.1
          rw [isWordChar_of_isDigit hdigit] at hword
          cases hword

/-- A number ends in front of a delimiter if it does not end before. -/
theorem splitNumber_before (isFloat : Bool) (last : Char) (cs : List Char) :
    splitNumber isFloat last (cs ++ more) =
      ((splitNumber isFloat last cs).1, (splitNumber isFloat last cs).2.1,
        (splitNumber isFloat last cs).2.2 ++ more) := by
  induction cs generalizing isFloat last with
  | nil => exact splitNumber_delimited hmore isFloat last
  | cons c cs ih =>
      rw [List.cons_append, splitNumber_cons, splitNumber_cons, startsWithDigit_append hmore]
      cases numberGoesOn? isFloat last c (startsWithDigit cs) with
      | none => rfl
      | some float => simp only [ih]

theorem scanNumber_append {start : Nat} {first : Char} (h : scanNumber start first cs = .ok l) :
    scanNumber start first (cs ++ more) = .ok (l.followedBy more) := by
  simp only [scanNumber] at h
  split at h
  · rename_i t htoken
    cases h
    simp only [scanNumber, splitNumber_before hmore, htoken]
    rfl
  · cases h

theorem scanWord_append (start : Nat) (first : Char) (cs : List Char) :
    scanWord start first (cs ++ more) = (scanWord start first cs).followedBy more := by
  have hword : (cs ++ more).takeWhile isWordChar = cs.takeWhile isWordChar ∧
      (cs ++ more).dropWhile isWordChar = cs.dropWhile isWordChar ++ more := by
    induction cs with
    | nil => exact takeWhile_append_delimited (by simp) hmore
    | cons c cs ih =>
        by_cases hc : isWordChar c = true
        · simp [hc, ih]
        · simp [hc]
  simp only [scanWord, hword.1, hword.2]
  rfl

theorem scanToken_append {offset : Nat} {c : Char} (h : scanToken offset c cs = .ok l) :
    scanToken offset c (cs ++ more) = .ok (l.followedBy more) := by
  obtain ⟨scanner, hscanner, heq⟩ := exists_scannedBy c
  rw [heq] at h ⊢
  cases hscanner with
  | sign =>
      cases h
      rfl
  | ellipsis => exact scanEllipsis_append h more
  | string => exact scanString_append h more
  | number => exact scanNumber_append hmore h
  | word =>
      cases h
      exact congrArg Except.ok (scanWord_append hmore offset c cs)
  | none => cases h

/--
The tokens of a text in front of a delimiter are its own, without the end
marker, and then those of the text that begins where it ends.
-/
theorem scanFrom_append {offset last : Nat} {body : List Located}
    (h : scanFrom cs offset = .ok (body ++ [⟨.stop, last⟩])) :
    scanFrom (cs ++ more) offset = (scanFrom more last).map (body ++ ·) := by
  fun_induction scanFrom cs offset generalizing body with
  | case1 offset =>
      obtain ⟨rfl, hlast⟩ := List.append_inj' (Except.ok.inj h : [] ++ [_] = _) rfl
      cases hlast
      rw [List.nil_append]
      cases scanFrom more last <;> rfl
  | case2 offset c rest hblank ih =>
      rw [List.cons_append, scanFrom_blank hblank, ih h]
  | case3 => cases h
  | case4 => cases h
  | case5 offset c rest hblank lexeme hlexeme _ tokens htokens ih =>
      -- The tokens behind the first are closed by an end marker, and it is the one of the text.
      obtain ⟨tail, _, rfl, -⟩ := scanFrom_eq_concat htokens
      rw [Except.ok.injEq, ← List.cons_append] at h
      obtain ⟨rfl, hlast⟩ := List.append_inj' h rfl
      cases hlast
      rw [List.cons_append, scanFrom_token hblank (scanToken_append hmore hlexeme)]
      have hrest := ih htokens
      rw [Lexeme.followedBy, hrest]
      cases scanFrom more last <;> rfl

end Append

/-! ## Compiled texts inside braces -/

/-- A text that compiles is read as its pattern in front of every delimiter. -/
theorem readsAs_of_compile {text : String} {p : Pattern} (h : compile text = .ok p) :
    ReadsAs text.toList p := by
  intro more hmore
  obtain ⟨body, last, hscan, hdenotes⟩ := denotes_of_compile h
  refine ⟨words body, fun offset => ?_, hdenotes⟩
  -- The text begins at some offset and goes on, so its tokens are moved there first.
  have hmoved := scanFrom_shift text.toList 0 offset
  rw [← scan, hscan, Nat.zero_add] at hmoved
  have htokens : scanFrom text.toList offset =
      .ok (body.map (Located.shift offset) ++ [⟨.stop, last + offset⟩]) := by
    rw [hmoved, shiftResult, List.map_append]
    rfl
  exact ⟨body.map (Located.shift offset), last + offset, words_map_shift offset body,
    scanFrom_append hmore htokens⟩

def bracedText (texts : List String) : String :=
  "\x7b" ++ " | ".intercalate texts ++ "\x7d"

theorem toList_bracedText (texts : List String) :
    (bracedText texts).toList =
      '\x7b' :: ([' ', '|', ' '].intercalate (texts.map String.toList) ++ ['\x7d']) := by
  simp [bracedText, String.toList_intercalate]

/-- Texts that compile make up the braced text of the choice of their patterns. -/
theorem compile_bracedText {texts : List String} {ps : List Pattern} (hne : texts ≠ [])
    (h : List.Forall₂ (fun text p => compile text = .ok p) texts ps) :
    compile (bracedText texts) = .ok (.oneOf ps) := by
  have hmembers : ps ≠ [] := by
    rintro rfl
    exact hne (List.forall₂_nil_right_iff.1 h)
  have hreads : List.Forall₂ ReadsAs (texts.map String.toList) ps :=
    List.forall₂_map_left_iff.2 (h.imp fun _ _ hp => readsAs_of_compile hp)
  obtain ⟨ts, hlexes, hdenotes⟩ := readsAs_braced hmembers hreads [] trivial
  rw [List.append_nil, ← toList_bracedText] at hlexes
  have hcompile := compile_of_lexes hlexes hdenotes
  rwa [String.ofList_toList] at hcompile

end Pattern

end TreeLint

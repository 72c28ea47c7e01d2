import TreeLint.Proofs.Pattern.Standing

/-!
# Blank characters between tokens

No scanner looks across blank characters.  So the tokens of two texts with blank
characters between them are the tokens of the first and those of the second, and
it does not matter to the pattern how tokens are kept apart.

The places between two tokens are those where the scanner stands when it begins
a token.  What is in front of such a place can be scanned alone.
-/

namespace TreeLint

namespace Pattern

open Text

/-! ## Blank characters -/

theorem delimited_of_blank {blank : List Char} (hne : blank ≠ [])
    (hblank : ∀ c ∈ blank, isBlank c = true) (cs : List Char) : Delimited (blank ++ cs) := by
  cases blank with
  | nil => exact absurd rfl hne
  | cons c tail =>
      have hc := hblank c List.mem_cons_self
      have hword : isWordChar c = false := by
        rw [Bool.eq_false_iff]
        intro hword
        rw [isBlank_of_isWordChar hword] at hc
        cases hc
      have hsign : c ∉ ['+', '-', '.'] := by
        intro hmem
        simp only [List.mem_cons, List.not_mem_nil, or_false] at hmem
        rcases hmem with rfl | rfl | rfl <;> exact absurd hc (by decide)
      exact delimited_cons hword hsign (tail ++ cs)

theorem scanFrom_blanks {blank : List Char} (hblank : ∀ c ∈ blank, isBlank c = true)
    (cs : List Char) (offset : Nat) :
    scanFrom (blank ++ cs) offset = scanFrom cs (offset + byteLength blank) := by
  induction blank generalizing offset with
  | nil => rfl
  | cons c blank ih =>
      have htail := ih (fun d hd => hblank d (List.mem_cons_of_mem c hd)) (offset + c.utf8Size)
      rw [List.cons_append, scanFrom_blank (hblank c List.mem_cons_self), htail, byteLength,
        Nat.add_assoc]

theorem scanFrom_blank_append {cs blank more : List Char} {body : List Located} {last : Nat}
    (hne : blank ≠ []) (hblank : ∀ c ∈ blank, isBlank c = true)
    (h : scanFrom cs 0 = .ok (body ++ [⟨.stop, last⟩])) :
    scanFrom (cs ++ blank ++ more) 0 =
      (scanFrom more (byteLength (cs ++ blank))).map (body ++ ·) := by
  rw [List.append_assoc, scanFrom_append (delimited_of_blank hne hblank more) h,
    scanFrom_blanks hblank, scanFrom_stop h, byteLength_append]

/-!
## Tokens in front of a cut

A token that ends in front of a cut is the same without the text behind the cut.
Only a number looks past the next character, at a digit behind a point, and then
it takes the digit.
-/

section Cut

variable {cs more rest : List Char}

/-- A number that ends at a character ends there also when the text is cut behind it. -/
theorem numberGoesOn?_cut {isFloat : Bool} {last c : Char}
    (h : numberGoesOn? isFloat last c (startsWithDigit (cs ++ more)) = none) :
    numberGoesOn? isFloat last c (startsWithDigit cs) = none := by
  cases cs with
  | cons => exact h
  | nil =>
      unfold numberGoesOn? at h ⊢
      split at h
      · cases h
      · rename_i hdigit
        split at h
        · cases h
        · rw [if_neg hdigit, startsWithDigit, Bool.and_false, if_neg Bool.false_ne_true]
          exact h

theorem splitNumber_eq_nil {isFloat float : Bool} {last : Char}
    (h : splitNumber isFloat last cs = ([], float, rest)) :
    float = isFloat ∧ startsWithDigit cs = false := by
  cases cs with
  | nil =>
      cases h
      exact ⟨rfl, rfl⟩
  | cons c cs =>
      rw [splitNumber_cons] at h
      split at h
      · simp at h
      · rename_i hends
        cases h
        refine ⟨rfl, ?_⟩
        show c.isDigit = false
        rw [Bool.eq_false_iff]
        intro hdigit
        simp [numberGoesOn?, hdigit] at hends

theorem splitNumber_eq_self {isFloat float : Bool} {last : Char} {taken : List Char}
    (h : splitNumber isFloat last more = (taken, float, rest ++ more)) :
    taken = [] ∧ rest = [] := by
  have hlength := congrArg List.length (splitNumber_append isFloat last more)
  simp only [h, List.length_append] at hlength
  exact ⟨List.length_eq_zero_iff.1 (by omega), List.length_eq_zero_iff.1 (by omega)⟩

/-- A digit behind a point is taken with the point, so the cut is not between them. -/
theorem startsWithDigit_cut {isFloat float : Bool} {last : Char} {taken : List Char}
    (h : splitNumber isFloat last (cs ++ more) = (taken, float, rest ++ more)) :
    startsWithDigit (cs ++ more) = startsWithDigit cs := by
  cases cs with
  | cons => rfl
  | nil =>
      rw [(splitNumber_eq_self h).1] at h
      exact (splitNumber_eq_nil h).2

theorem splitNumber_cut {isFloat float : Bool} {last : Char} {taken : List Char}
    (h : splitNumber isFloat last (cs ++ more) = (taken, float, rest ++ more)) :
    splitNumber isFloat last cs = (taken, float, rest) := by
  induction cs generalizing isFloat last taken with
  | nil =>
      obtain ⟨rfl, rfl⟩ := splitNumber_eq_self h
      rw [(splitNumber_eq_nil h).1]
      rfl
  | cons c cs ih =>
      rw [List.cons_append, splitNumber_cons] at h
      rw [splitNumber_cons]
      split at h
      · rename_i float' hgoes
        simp only [Prod.mk.injEq] at h
        obtain ⟨rfl, hbehind⟩ := h
        have hcut : splitNumber float' c (cs ++ more) =
            ((splitNumber float' c (cs ++ more)).1, float, rest ++ more) :=
          Prod.ext rfl hbehind
        rw [startsWithDigit_cut hcut] at hgoes
        simp only [hgoes, ih hcut]
      · rename_i hends
        simp only [Prod.mk.injEq] at h
        obtain ⟨rfl, rfl, hrest⟩ := h
        rw [← List.cons_append] at hrest
        rw [numberGoesOn?_cut hends, List.append_cancel_right hrest]

theorem takeWhile_cut {p : Char → Bool} (h : (cs ++ more).dropWhile p = rest ++ more) :
    (cs ++ more).takeWhile p = cs.takeWhile p ∧ cs.dropWhile p = rest := by
  induction cs with
  | nil =>
      have hlength := congrArg List.length (List.takeWhile_append_dropWhile (p := p) (l := more))
      rw [List.nil_append] at h
      rw [h, List.length_append, List.length_append] at hlength
      have htaken : more.takeWhile p = [] := List.length_eq_zero_iff.1 (by omega)
      have hrest : rest = [] := List.length_eq_zero_iff.1 (by omega)
      exact ⟨htaken, hrest.symm⟩
  | cons c cs ih =>
      by_cases hc : p c = true
      · rw [List.cons_append, List.dropWhile_cons_of_pos hc] at h
        rw [List.cons_append, List.takeWhile_cons_of_pos hc, List.takeWhile_cons_of_pos hc,
          List.dropWhile_cons_of_pos hc, (ih h).1]
        exact ⟨rfl, (ih h).2⟩
      · rw [List.cons_append, List.dropWhile_cons_of_neg hc, ← List.cons_append] at h
        rw [List.cons_append, List.takeWhile_cons_of_neg hc, List.takeWhile_cons_of_neg hc,
          List.dropWhile_cons_of_neg hc]
        exact ⟨rfl, List.append_cancel_right h⟩

variable {offset : Nat} {c : Char} {l : Lexeme}

theorem scanEllipsis_cut {start : Nat} (h : scanEllipsis start (cs ++ more) = .ok l)
    (hrest : l.rest = rest ++ more) : scanEllipsis start cs = .ok ⟨l.token, rest, l.offset⟩ := by
  generalize htext : cs ++ more = text at h
  unfold scanEllipsis at h
  split at h
  · cases h
    have hcs : cs ++ more = '.' :: '.' :: rest ++ more :=
      htext.trans (congrArg ('.' :: '.' :: ·) hrest)
    rw [List.append_cancel_right hcs]
    rfl
  all_goals cases h

theorem scanString_cut {quote : Char} {start : Nat} {acc : List Char}
    (h : scanString quote start acc (cs ++ more) offset = .ok l) (hrest : l.rest = rest ++ more) :
    scanString quote start acc cs offset = .ok ⟨l.token, rest, l.offset⟩ := by
  obtain ⟨own, hcs, hown⟩ := scanString_own h
  rw [hrest, ← List.append_assoc] at hcs
  rw [List.append_cancel_right hcs, hown]

theorem scanNumber_cut {start : Nat} (h : scanNumber start c (cs ++ more) = .ok l)
    (hrest : l.rest = rest ++ more) : scanNumber start c cs = .ok ⟨l.token, rest, l.offset⟩ := by
  simp only [scanNumber] at h
  split at h
  · rename_i t htoken
    cases h
    have hsplit : splitNumber false c (cs ++ more) =
        ((splitNumber false c (cs ++ more)).1, (splitNumber false c (cs ++ more)).2.1,
          rest ++ more) := Prod.ext rfl (Prod.ext rfl hrest)
    simp only [scanNumber, splitNumber_cut hsplit, htoken]
  · cases h

theorem scanToken_cut (h : scanToken offset c (cs ++ more) = .ok l)
    (hrest : l.rest = rest ++ more) : scanToken offset c cs = .ok ⟨l.token, rest, l.offset⟩ := by
  obtain ⟨scanner, hscanner, heq⟩ := exists_scannedBy c
  rw [heq] at h ⊢
  cases hscanner with
  | sign =>
      cases h
      rw [List.append_cancel_right hrest]
  | ellipsis => exact scanEllipsis_cut h hrest
  | string => exact scanString_cut h hrest
  | number => exact scanNumber_cut h hrest
  | word =>
      cases h
      obtain ⟨hword, hbehind⟩ := takeWhile_cut hrest
      simp only [scanWord, hword, hbehind]
  | none => cases h

end Cut

/-! ## Places between tokens -/

/--
The scanner has passed over the tokens `used` and stands at offset `p`, where
`rest` is what is left of the text.
-/
inductive Scanned (text : List Char) : List Located → Nat → List Char → Prop
  | start : Scanned text [] 0 text
  | blank {used : List Located} {p : Nat} {c : Char} {rest : List Char}
      (h : Scanned text used p (c :: rest)) (hblank : isBlank c = true) :
      Scanned text used (p + c.utf8Size) rest
  | token {used : List Located} {p : Nat} {c : Char} {rest : List Char} {l : Lexeme}
      (h : Scanned text used p (c :: rest)) (hvisible : isBlank c = false)
      (htoken : scanToken p c rest = .ok l) :
      Scanned text (used ++ [⟨l.token, p⟩]) l.offset l.rest

namespace Scanned

variable {text rest : List Char} {used : List Located} {p : Nat}

theorem standsAt (h : Scanned text used p rest) : StandsAt text p rest := by
  induction h with
  | start => exact .start text
  | blank _ _ ih => exact ih.next
  | token _ _ htoken ih =>
      have hstands := scanToken_stands ih
      rw [htoken] at hstands
      exact hstands

/-- The scanner goes on with what is left. -/
theorem scanFrom_eq (h : Scanned text used p rest) :
    scanFrom text 0 = (scanFrom rest p).map (used ++ ·) := by
  induction h with
  | start => cases scanFrom text 0 <;> rfl
  | blank _ hblank ih => rw [ih, scanFrom_blank hblank]
  | @token used p c rest l _ hvisible htoken ih =>
      have hnot : ¬ isBlank c = true := by simp [hvisible]
      rw [ih, scanFrom_token hnot htoken]
      cases scanFrom l.rest l.offset with
      | error fault => rfl
      | ok tokens => simp [Except.map]

/-- What is in front of a cut between tokens is scanned in the same way without the rest. -/
theorem cut {cs more : List Char} (h : Scanned (cs ++ more) used p (rest ++ more)) :
    Scanned cs used p rest := by
  generalize hleft : rest ++ more = left at h
  induction h generalizing rest with
  | start =>
      rw [List.append_cancel_right hleft]
      exact .start
  | @blank used p c behind h hblank ih =>
      have hfront : Scanned cs used p (c :: rest) := ih (by rw [← hleft]; rfl)
      exact hfront.blank hblank
  | @token used p c behind l h hvisible htoken ih =>
      -- What the token leaves is an end of what stands behind its first character.
      have hlength := scanToken_length htoken
      obtain ⟨before, hbefore, -⟩ := h.standsAt
      obtain ⟨before', hbefore', -⟩ := (h.token hvisible htoken).standsAt
      have hsuffix : l.rest <:+ behind := by
        refine List.suffix_of_suffix_length_le ⟨before', hbefore'.symm⟩ ⟨before ++ [c], ?_⟩ hlength
        rw [hbefore, List.append_assoc]
        rfl
      obtain ⟨own, rfl⟩ := hsuffix
      rw [← hleft, ← List.append_assoc] at htoken h ih
      have hfront : Scanned cs used p (c :: (own ++ rest)) := ih rfl
      exact hfront.token hvisible (scanToken_cut htoken hleft.symm)

end Scanned

/-- Read as one text, the two texts meet at a place where the scanner begins a token. -/
def BetweenTokens (first second : String) : Prop :=
  ∃ used p, Scanned (first ++ second).toList used p second.toList

def IsBlank (s : String) : Prop :=
  ∀ c ∈ s.toList, isBlank c = true

/--
The second text is the first one with other blank characters at a place between
tokens; there may have been none.
-/
inductive Respaced : String → String → Prop
  | intro {first second blank blank' : String} (hplace : BetweenTokens first (blank ++ second))
      (hblank : IsBlank blank) (hne : blank' ≠ "") (hblank' : IsBlank blank') :
      Respaced (first ++ blank ++ second) (first ++ blank' ++ second)

/-- The pattern of a text depends on the words of its tokens only. -/
theorem compile_eq_ok_of_words {text text' : String} {tokens tokens' : List Located}
    (h : scan text = .ok tokens) (h' : scan text' = .ok tokens')
    (hwords : words tokens = words tokens') (p : Pattern) :
    compile text = .ok p ↔ compile text' = .ok p := by
  obtain ⟨body, last, rfl, hbody⟩ := scanFrom_eq_concat h
  obtain ⟨body', last', rfl, hbody'⟩ := scanFrom_eq_concat h'
  rw [words_append, words_append] at hwords
  have hsame : words body = words body' := (List.append_inj' hwords rfl).1
  rw [compile_of_scan h, compile_of_scan h', parseTokens_eq_ok hbody, parseTokens_eq_ok hbody',
    hsame]

/-- It does not matter where the rest of a text begins. -/
theorem compile_eq_ok_of_rest {text text' : String} {used : List Located} {rest : List Char}
    {k k' : Nat} (h : scan text = (scanFrom rest k).map (used ++ ·))
    (h' : scan text' = (scanFrom rest k').map (used ++ ·)) (p : Pattern) :
    compile text = .ok p ↔ compile text' = .ok p := by
  have hk := scanFrom_shift rest 0 k
  have hk' := scanFrom_shift rest 0 k'
  rw [Nat.zero_add] at hk hk'
  rw [hk] at h
  rw [hk'] at h'
  cases hrest : scanFrom rest 0 with
  | error fault =>
      rw [hrest] at h h'
      simp [compile, h, h', shiftResult, Except.map]
  | ok tokens =>
      rw [hrest] at h h'
      refine compile_eq_ok_of_words h h' ?_ p
      rw [words_append, words_append, words_map_shift, words_map_shift]

theorem Respaced.compile_eq_ok {text text' : String} (h : Respaced text text') (p : Pattern) :
    compile text = .ok p ↔ compile text' = .ok p := by
  cases h with
  | @intro first second blank blank' hplace hblank hne hblank' =>
      obtain ⟨used, q, hscanned⟩ := hplace
      rw [String.toList_append, String.toList_append] at hscanned
      have hold : scan (first ++ blank ++ second) =
          (scanFrom second.toList (q + byteLength blank.toList)).map (used ++ ·) := by
        rw [scan, String.toList_append, String.toList_append, List.append_assoc,
          hscanned.scanFrom_eq, scanFrom_blanks hblank]
      -- The tokens in front of the place are those of the first text alone.
      have hfront : Scanned first.toList used q [] := Scanned.cut hscanned
      have hfirst : scanFrom first.toList 0 = .ok (used ++ [⟨.stop, q⟩]) := by
        rw [hfront.scanFrom_eq, scanFrom_nil]
        rfl
      have hne' : blank'.toList ≠ [] := mt String.toList_eq_nil_iff.1 hne
      have hnew : scan (first ++ blank' ++ second) =
          (scanFrom second.toList (byteLength (first ++ blank').toList)).map (used ++ ·) := by
        rw [scan, String.toList_append, String.toList_append,
          scanFrom_blank_append hne' hblank' hfirst]
      exact compile_eq_ok_of_rest hold hnew p

/--
The tokens of two texts with blank characters between them are the tokens of both,
and the pattern of a text does not depend on the blank characters between tokens.
-/
theorem blank_separates_tokens :
    (∀ {first blank second : String} {tokens : List Located}, blank ≠ "" → IsBlank blank →
      scan first = .ok tokens →
      ∃ body, tokens = body ++ [⟨.stop, first.utf8ByteSize⟩] ∧ .stop ∉ words body ∧
        ((∃ all, scan (first ++ blank ++ second) = .ok all) ↔ ∃ more, scan second = .ok more) ∧
        (∀ more, scan second = .ok more →
          scan (first ++ blank ++ second) =
            .ok (body ++ more.map (Located.shift (first ++ blank).utf8ByteSize))) ∧
        ∀ fault, scan second = .error fault →
          scan (first ++ blank ++ second) =
            .error (fault.shift (first ++ blank).utf8ByteSize)) ∧
      ∀ {text text' : String}, Relation.EqvGen Respaced text text' →
        ∀ p, compile text = .ok p ↔ compile text' = .ok p := by
  constructor
  · intro first blank second tokens hne hblank hscan
    obtain ⟨body, last, rfl, hbody⟩ := scanFrom_eq_concat hscan
    have hlast : last = first.utf8ByteSize := (scanFrom_stop hscan).trans (byteLength_toList first)
    have hne' : blank.toList ≠ [] := mt String.toList_eq_nil_iff.1 hne
    have hall : scan (first ++ blank ++ second) =
        (shiftResult (fun k => List.map (Located.shift k)) (first ++ blank).utf8ByteSize
          (scan second)).map (body ++ ·) := by
      rw [scan, scan, String.toList_append, ← scanFrom_shift, Nat.zero_add, ← byteLength_toList,
        String.toList_append, scanFrom_blank_append hne' hblank hscan]
    rw [hlast]
    refine ⟨body, rfl, hbody, ?_, ?_, ?_⟩
    · rw [hall]
      cases scan second with
      | error fault => simp [shiftResult, Except.map]
      | ok more => simp [shiftResult, Except.map]
    · intro more hmore
      rw [hall, hmore]
      rfl
    · intro fault hfault
      rw [hall, hfault]
      rfl
  · intro text text' h p
    induction h with
    | rel _ _ h => exact h.compile_eq_ok p
    | refl => exact Iff.rfl
    | symm _ _ _ ih => exact ih.symm
    | trans _ _ _ _ _ ih ih' => exact ih.trans ih'

/--
A number, a wide blank of three bytes and a point that is not part of the number;
and a name with blank characters in front of its children or without.
-/
theorem scan_point_behind_blank :
    scan "1\u2003.5" = .error ⟨.unexpectedCharacter '5', 5⟩ ∧
      ∀ p, compile "a(b)" = .ok p ↔ compile "a\n\t(b)" = .ok p := by
  constructor
  · have hblank : IsBlank "\u2003" := by
      intro c hc
      rw [List.mem_singleton.1 hc]
      rfl
    have hfirst : scan "1" = .ok [⟨.integer 1, 0⟩, ⟨.stop, 1⟩] := by decide +kernel
    have hsecond : scan ".5" = .error ⟨.unexpectedCharacter '5', 1⟩ := by decide +kernel
    obtain ⟨_, _, _, _, _, hfault⟩ := blank_separates_tokens.1 (by decide) hblank hfirst
    exact hfault _ hsecond
  · have hname : scanToken 0 'a' ['(', 'b', ')'] = .ok ⟨.name "a", ['(', 'b', ')'], 1⟩ := rfl
    have hplace : BetweenTokens "a" ("" ++ "(b)") :=
      ⟨[⟨.name "a", 0⟩], 1, Scanned.token (c := 'a') .start rfl hname⟩
    have hblank : IsBlank "\n\t" := by
      intro c hc
      have hmem : c ∈ ['\n', '\t'] := hc
      simp only [List.mem_cons, List.not_mem_nil, or_false] at hmem
      rcases hmem with rfl | rfl <;> rfl
    have hrespaced : Respaced ("a" ++ "" ++ "(b)") ("a" ++ "\n\t" ++ "(b)") :=
      .intro hplace (by simp [IsBlank]) (by decide) hblank
    exact blank_separates_tokens.2 (.rel _ _ hrespaced)

end Pattern

end TreeLint

import Mathlib.Data.List.TakeWhile
import TreeLint.Proofs.Pattern.Embedding

/-!
# What stands at an offset

Offsets count bytes, and scanning moves on by the bytes of what it reads.  So every token
stands where a character begins, and a fault of the scanner stands at the text that it
complains about.
-/

namespace TreeLint

namespace Pattern

open Text

/-- From byte `p` of the text on, `rest` stands. -/
def StandsAt (text : List Char) (p : Nat) (rest : List Char) : Prop :=
  ∃ before, text = before ++ rest ∧ byteLength before = p

namespace StandsAt

variable {text rest cs : List Char} {p : Nat} {c : Char}

theorem start (text : List Char) : StandsAt text 0 text :=
  ⟨[], rfl, rfl⟩

theorem skip (h : StandsAt text p (cs ++ rest)) : StandsAt text (p + byteLength cs) rest := by
  obtain ⟨before, htext, hbefore⟩ := h
  refine ⟨before ++ cs, ?_, ?_⟩
  · rw [htext, List.append_assoc]
  · rw [byteLength_append, hbefore]

theorem next (h : StandsAt text p (c :: rest)) : StandsAt text (p + c.utf8Size) rest := by
  rw [← List.singleton_append] at h
  exact h.skip

theorem skip_ascii (h : StandsAt text p (cs ++ rest)) (hcs : ∀ c ∈ cs, c.toNat < 128) :
    StandsAt text (p + cs.length) rest := by
  rw [← byteLength_of_ascii hcs]
  exact h.skip

theorem next_ascii (h : StandsAt text p (c :: rest)) (hc : c.toNat < 128) :
    StandsAt text (p + 1) rest := by
  rw [← List.singleton_append] at h
  exact h.skip_ascii (by simpa using hc)

end StandsAt

def Cause.Shows (rest : List Char) : Cause → Prop
  | .unexpectedCharacter c => [c] <+: rest
  | .unterminatedString => ['"'] <+: rest ∨ ['\''] <+: rest ∨ rest = ['\\']
  | .invalidEscape c => ['\\', c] <+: rest
  | .invalidNumber raw => raw ≠ "" ∧ raw.toList <+: rest
  | .unexpectedToken _ _ => rest ≠ []
  | .unexpectedEnd expected =>
      (expected = .ellipsis ∧ (rest = ['.'] ∨ rest = ['.', '.'])) ∨
        (expected ≠ .ellipsis ∧ rest = [])
  | .ellipsisNotLast => ['.', '.', '.'] <+: rest
  | .multipleEllipsis => ['.', '.', '.'] <+: rest
  | .ellipsisOutsideChildren => ['.', '.', '.'] <+: rest
  | .emptyAlternation => ['\x7b'] <+: rest
  | .trailingInput => rest ≠ []

def Explained (text : List Char) (f : Fault) : Prop :=
  ∃ rest, StandsAt text f.position rest ∧ f.cause.Shows rest

structure Heads (t : Token) (rest : List Char) : Prop where
  stop : t = .stop ↔ rest = []
  ellipsis : t = .ellipsis → ['.', '.', '.'] <+: rest
  brace : t = .openBrace → ['\x7b'] <+: rest

/-- The result of scanning a token: the text behind it stands at its end, or a fault is
explained. -/
def Stands (text : List Char) : Except Fault Lexeme → Prop
  | .ok l => StandsAt text l.offset l.rest
  | .error f => Explained text f

/-! ## ASCII characters -/

theorem toNat_lt_of_isWordChar {c : Char} (h : isWordChar c = true) : c.toNat < 128 := by
  have hnat := toNat_of_isWordChar h
  omega

theorem toNat_lt_of_sign? {c : Char} {t : Token} (h : sign? c = some t) : c.toNat < 128 := by
  unfold sign? at h
  split at h <;> first | decide | cases h

theorem toNat_lt_of_numberGoesOn? {isFloat digit float : Bool} {last c : Char}
    (h : numberGoesOn? isFloat last c digit = some float) : c.toNat < 128 := by
  unfold numberGoesOn? at h
  split at h
  · rename_i hc
    rcases Bool.or_eq_true_iff.1 hc with hdigit | hunder
    · exact toNat_lt_of_isWordChar (isWordChar_of_isDigit hdigit)
    · rw [beq_iff_eq.1 hunder]
      decide
  · split at h
    · rename_i hc
      simp only [Bool.and_eq_true, beq_iff_eq] at hc
      rw [hc.1.1]
      decide
    · split at h
      · rename_i hc
        simp only [Bool.or_eq_true, beq_iff_eq] at hc
        rcases hc with rfl | rfl <;> decide
      · split at h
        · rename_i hc
          simp only [Bool.and_eq_true, Bool.or_eq_true, beq_iff_eq] at hc
          rcases hc.1 with rfl | rfl <;> decide
        · cases h

/-- Numbers are made of ASCII characters. -/
theorem splitNumber_ascii (isFloat : Bool) (last : Char) (cs : List Char) :
    ∀ c ∈ (splitNumber isFloat last cs).1, c.toNat < 128 := by
  induction cs generalizing isFloat last with
  | nil => simp [splitNumber]
  | cons c cs ih =>
      rw [splitNumber_cons]
      split
      · rename_i float hgoes
        exact List.forall_mem_cons.2 ⟨toNat_lt_of_numberGoesOn? hgoes, ih float c⟩
      · simp

/-! ## One token -/

section Token

variable {text cs : List Char} {start offset : Nat}

theorem scanEllipsis_stands (h : StandsAt text start ('.' :: cs)) :
    Stands text (scanEllipsis start cs) := by
  unfold scanEllipsis
  split
  · rename_i rest
    have hpoints : StandsAt text start (['.', '.', '.'] ++ rest) := h
    exact hpoints.skip_ascii (by simp)
  · exact ⟨['.', '.'], h, .inl ⟨rfl, .inr rfl⟩⟩
  · rename_i c rest _
    have hpoints : StandsAt text start (['.', '.'] ++ c :: rest) := h
    exact ⟨c :: rest, hpoints.skip_ascii (by simp), List.prefix_append [c] rest⟩
  · rename_i c rest _ _ _
    exact ⟨c :: rest, h.next_ascii (by decide), List.prefix_append [c] rest⟩
  · exact ⟨['.'], h, .inl ⟨rfl, .inl rfl⟩⟩

theorem scanString_stands {quote : Char} {body acc : List Char}
    (hquote : quote = '"' ∨ quote = '\'') (hstart : StandsAt text start (quote :: body))
    (h : StandsAt text offset cs) : Stands text (scanString quote start acc cs offset) := by
  fun_induction scanString quote start acc cs offset with
  | case1 acc offset =>
      refine ⟨quote :: body, hstart, ?_⟩
      rcases hquote with rfl | rfl
      · exact .inl (List.prefix_append ['"'] body)
      · exact .inr (.inl (List.prefix_append ['\''] body))
  | case2 acc offset rest =>
      have hascii : quote.toNat < 128 := by rcases hquote with rfl | rfl <;> decide
      exact h.next_ascii hascii
  | case3 acc offset _ => exact ⟨['\\'], h, .inr (.inr rfl)⟩
  | case4 acc offset e tail d hshort _ ih =>
      have hescape : StandsAt text offset (['\\', e] ++ tail) := h
      have hascii : ∀ c ∈ ['\\', e], c.toNat < 128 := by
        simp [toNat_lt_of_shortEscape? hshort]
      exact ih (hescape.skip_ascii hascii)
  | case5 acc offset tail d tail' bytes hnumber _ _ _ ih =>
      obtain ⟨digits, n, rfl, hdigits, -, rfl⟩ := scanNumberEscape?_eq_some hnumber
      have hhex := isHexDigit_of_readNat? hdigits
      have hescape : StandsAt text offset (['\\', 'u', '\x7b'] ++ (digits ++ '\x7d' :: tail')) := h
      have hdigits' := (hescape.skip_ascii (by simp)).skip_ascii fun c hc =>
        toNat_lt_of_isHexDigit (hhex c hc)
      have hbehind := hdigits'.next_ascii (by decide)
      have hsum : offset + 3 + digits.length + 1 = offset + 2 + (digits.length + 2) := by omega
      rw [List.length_cons, List.length_cons, List.length_cons, List.length_nil, hsum] at hbehind
      exact ih hbehind
  | case6 acc offset tail _ _ _ => exact ⟨_, h, List.prefix_append ['\\', 'u'] tail⟩
  | case7 acc offset e tail _ _ _ => exact ⟨_, h, List.prefix_append ['\\', e] tail⟩
  | case8 acc offset c rest _ _ ih => exact ih h.next

theorem scanNumber_stands {first : Char} (hfirst : first.toNat < 128)
    (h : StandsAt text start (first :: cs)) : Stands text (scanNumber start first cs) := by
  have hsplit := splitNumber_append false first cs
  have hascii : ∀ c ∈ first :: (splitNumber false first cs).1, c.toNat < 128 :=
    List.forall_mem_cons.2 ⟨hfirst, splitNumber_ascii false first cs⟩
  simp only [scanNumber]
  split
  · rw [← hsplit, ← List.cons_append] at h
    exact h.skip_ascii hascii
  · refine ⟨first :: cs, h, ?_, ?_⟩
    · simp [← String.toList_inj]
    · rw [String.toList_ofList]
      nth_rewrite 2 [← hsplit]
      exact ⟨_, rfl⟩

theorem scanWord_stands {first : Char} (hfirst : isWordStart first = true)
    (h : StandsAt text start (first :: cs)) :
    StandsAt text (scanWord start first cs).offset (scanWord start first cs).rest := by
  have hsplit := List.takeWhile_append_dropWhile (p := isWordChar) (l := cs)
  rw [← hsplit, ← List.cons_append] at h
  refine h.skip_ascii (List.forall_mem_cons.2 ⟨?_, ?_⟩)
  · exact toNat_lt_of_isWordChar (isWordChar_of_isWordStart hfirst)
  · intro c hc
    exact toNat_lt_of_isWordChar (List.mem_takeWhile_imp hc)

theorem scanToken_stands {c : Char} (h : StandsAt text offset (c :: cs)) :
    Stands text (scanToken offset c cs) := by
  obtain ⟨scanner, hscanner, heq⟩ := exists_scannedBy c
  rw [heq]
  cases hscanner with
  | sign hsign => exact h.next_ascii (toNat_lt_of_sign? hsign)
  | ellipsis hpoint =>
      rw [hpoint] at h
      exact scanEllipsis_stands h
  | string hquote =>
      have hascii : c.toNat < 128 := by rcases hquote with rfl | rfl <;> decide
      exact scanString_stands hquote h (h.next_ascii hascii)
  | number hfirst =>
      have hascii : c.toNat < 128 := by
        rcases hfirst with rfl | hdigit
        · decide
        · exact toNat_lt_of_isWordChar (isWordChar_of_isDigit hdigit)
      exact scanNumber_stands hascii h
  | word hword => exact scanWord_stands hword h
  | none => exact ⟨c :: cs, h, List.prefix_append [c] cs⟩

end Token

/-! ## How tokens begin -/

theorem sign?_ne_ellipsis {c : Char} {t : Token} (h : sign? c = some t) : t ≠ .ellipsis := by
  unfold sign? at h
  split at h <;> cases h <;> simp

theorem eq_of_sign?_openBrace {c : Char} (h : sign? c = some .openBrace) : c = '\x7b' := by
  unfold sign? at h
  split at h <;> cases h
  rfl

/-- A token that is neither the end nor has a text of its own begins with anything. -/
theorem Heads.of_ne {t : Token} {rest : List Char} (hrest : rest ≠ []) (hstop : t ≠ .stop)
    (hellipsis : t ≠ .ellipsis) (hbrace : t ≠ .openBrace) : Heads t rest :=
  ⟨iff_of_false hstop hrest, fun h => absurd h hellipsis, fun h => absurd h hbrace⟩

theorem scanToken_heads {offset : Nat} {c : Char} {cs : List Char} {l : Lexeme}
    (h : scanToken offset c cs = .ok l) : Heads l.token (c :: cs) := by
  have hstop := scanToken_ne_stop h
  have hne : c :: cs ≠ [] := List.cons_ne_nil c cs
  obtain ⟨scanner, hscanner, heq⟩ := exists_scannedBy c
  rw [heq] at h
  cases hscanner with
  | sign hsign =>
      cases h
      refine ⟨iff_of_false hstop hne, ?_, ?_⟩
      · exact fun hellipsis => absurd hellipsis (sign?_ne_ellipsis hsign)
      · intro hbrace
        have hsign' : sign? c = some .openBrace := hsign.trans (congrArg some hbrace)
        rw [eq_of_sign?_openBrace hsign']
        exact List.prefix_append ['\x7b'] cs
  | ellipsis hpoint =>
      have htoken := scanEllipsis_token h
      refine ⟨iff_of_false hstop hne, ?_, ?_⟩
      · intro _
        unfold scanEllipsis at h
        split at h <;> cases h
        rw [hpoint]
        exact List.prefix_append ['.', '.', '.'] _
      · rw [htoken]
        simp
  | string =>
      obtain ⟨s, hs⟩ := scanString_token h
      exact .of_ne hne hstop (by simp [hs]) (by simp [hs])
  | number =>
      simp only [scanNumber] at h
      split at h
      · rename_i t ht
        cases h
        rcases numberToken?_cases ht with ⟨n, rfl⟩ | ⟨x, rfl⟩
        · exact .of_ne hne hstop (by simp) (by simp)
        · exact .of_ne hne hstop (by simp) (by simp)
      · cases h
  | word =>
      cases h
      exact .of_ne hne hstop (wordToken_ne _).2.1 (wordToken_ne _).2.2
  | none => cases h

/-! ## All tokens -/

/-- The token stands in the text, at something that it can begin with. -/
def Located.Marks (text : List Char) (t : Located) : Prop :=
  ∃ rest, StandsAt text t.offset rest ∧ Heads t.token rest

theorem scanFrom_marks {text cs : List Char} {offset : Nat} {tokens : List Located}
    (h : StandsAt text offset cs) (hscan : scanFrom cs offset = .ok tokens) :
    ∀ t ∈ tokens, t.Marks text := by
  fun_induction scanFrom cs offset generalizing tokens with
  | case1 offset =>
      cases hscan
      intro t ht
      rw [List.mem_singleton.1 ht]
      exact ⟨[], h, by simp, by simp, by simp⟩
  | case2 offset c rest _ ih => exact ih h.next hscan
  | case3 => cases hscan
  | case4 => cases hscan
  | case5 offset c rest _ lexeme hlexeme _ tail htail ih =>
      cases hscan
      have hbehind := scanToken_stands h
      rw [hlexeme] at hbehind
      refine List.forall_mem_cons.2 ⟨?_, ih hbehind htail⟩
      exact ⟨c :: rest, h, scanToken_heads hlexeme⟩

/-- The end marker stands behind the last byte. -/
theorem scanFrom_stop {cs : List Char} {body : List Located} {last : Nat}
    (h : scanFrom cs 0 = .ok (body ++ [⟨.stop, last⟩])) : last = byteLength cs := by
  have hmarks := scanFrom_marks (StandsAt.start cs) h ⟨.stop, last⟩ (by simp)
  obtain ⟨rest, ⟨before, hcs, hbefore⟩, hheads⟩ := hmarks
  have hrest : rest = [] := hheads.stop.1 rfl
  rw [hcs, hrest, List.append_nil]
  exact hbefore.symm

theorem scanFrom_explained {text cs : List Char} {offset : Nat} {f : Fault}
    (h : StandsAt text offset cs) (hscan : scanFrom cs offset = .error f) :
    Explained text f := by
  fun_induction scanFrom cs offset with
  | case1 => cases hscan
  | case2 offset c rest _ ih => exact ih h.next hscan
  | case3 offset c rest _ fault hfault =>
      cases hscan
      have hstands := scanToken_stands h
      rw [hfault] at hstands
      exact hstands
  | case4 offset c rest _ lexeme hlexeme _ fault hfault ih =>
      cases hscan
      have hbehind := scanToken_stands h
      rw [hlexeme] at hbehind
      exact ih hbehind hfault
  | case5 => cases hscan

end Pattern

end TreeLint

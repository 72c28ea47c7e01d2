import Mathlib.Data.List.Forall2
import TreeLint.Proofs.Pattern.Completeness

/-!
# The compiler accepts exactly the grammar

A text that can be scanned compiles to a pattern exactly when its tokens, without
the end marker, denote the pattern.
-/

namespace TreeLint

namespace Pattern

/-! ## The scanner closes its tokens with one end marker -/

theorem sign?_ne_stop {c : Char} {t : Token} (h : sign? c = some t) : t ≠ .stop := by
  unfold sign? at h
  split at h <;> cases h <;> simp

theorem scanEllipsis_token {start : Nat} {cs : List Char} {l : Lexeme}
    (h : scanEllipsis start cs = .ok l) : l.token = .ellipsis := by
  unfold scanEllipsis at h
  split at h <;> cases h
  rfl

theorem scanString_token {quote : Char} {start offset : Nat} {acc cs : List Char} {l : Lexeme}
    (h : scanString quote start acc cs offset = .ok l) : ∃ s, l.token = .string s := by
  fun_induction scanString quote start acc cs offset with
  | case2 => cases h; exact ⟨_, rfl⟩
  | case4 _ _ _ _ _ _ _ ih => exact ih h
  | case5 _ _ _ _ _ _ _ _ _ _ ih => exact ih h
  | case8 _ _ _ _ _ _ ih => exact ih h
  | _ => cases h

theorem numberToken?_cases {isFloat : Bool} {raw : List Char} {t : Token}
    (h : numberToken? isFloat raw = some t) : (∃ n, t = .integer n) ∨ ∃ x, t = .float x := by
  unfold numberToken? at h
  split at h
  · obtain ⟨x, -, rfl⟩ := Option.map_eq_some_iff.1 h
    exact .inr ⟨x, rfl⟩
  · obtain ⟨n, -, rfl⟩ := Option.map_eq_some_iff.1 h
    exact .inl ⟨n, rfl⟩

theorem wordToken_ne (word : String) :
    wordToken word ≠ .stop ∧ wordToken word ≠ .ellipsis ∧ wordToken word ≠ .openBrace := by
  unfold wordToken
  split
  · simp
  · split
    · simp
    · split
      · simp
      · split <;> simp

theorem scanNumber_ne_stop {start : Nat} {first : Char} {cs : List Char} {l : Lexeme}
    (h : scanNumber start first cs = .ok l) : l.token ≠ .stop := by
  simp only [scanNumber] at h
  split at h
  · rename_i t ht
    cases h
    rcases numberToken?_cases ht with ⟨n, rfl⟩ | ⟨x, rfl⟩
    · simp
    · simp
  · cases h

theorem scanToken_ne_stop {offset : Nat} {c : Char} {cs : List Char} {l : Lexeme}
    (h : scanToken offset c cs = .ok l) : l.token ≠ .stop := by
  obtain ⟨scanner, hscanner, heq⟩ := exists_scannedBy c
  rw [heq] at h
  cases hscanner with
  | sign hsign =>
      cases h
      exact sign?_ne_stop hsign
  | ellipsis => simp [scanEllipsis_token h]
  | string =>
      obtain ⟨s, hs⟩ := scanString_token h
      simp [hs]
  | number => exact scanNumber_ne_stop h
  | word =>
      cases h
      exact (wordToken_ne _).1
  | none => cases h

theorem scanFrom_eq_concat {cs : List Char} {offset : Nat} {tokens : List Located}
    (h : scanFrom cs offset = .ok tokens) :
    ∃ body last, tokens = body ++ [⟨.stop, last⟩] ∧ .stop ∉ words body := by
  fun_induction scanFrom cs offset generalizing tokens with
  | case1 offset =>
      cases h
      exact ⟨[], offset, rfl, by simp⟩
  | case2 offset c rest _ ih => exact ih h
  | case3 => cases h
  | case4 => cases h
  | case5 offset c rest _ lexeme hlexeme _ tail htail ih =>
      cases h
      obtain ⟨body, last, rfl, hstop⟩ := ih htail
      have hne := scanToken_ne_stop hlexeme
      exact ⟨⟨lexeme.token, offset⟩ :: body, last, rfl, by simp [hstop, hne.symm]⟩

/-! ## Complete lists of tokens -/

/-- A complete list of tokens parses to a pattern exactly when its words denote it. -/
theorem parseTokens_eq_ok {body : List Located} {last : Nat} (hbody : .stop ∉ words body)
    {p : Pattern} :
    parseTokens (body ++ [⟨.stop, last⟩]) = .ok p ↔ Denotes (words body) p := by
  constructor
  · intro h
    obtain ⟨⟨q, rest⟩, hparse, hend⟩ := bind_eq_ok.1 h
    dsimp only at hend
    split at hend
    · rename_i hnext
      cases hend
      obtain ⟨used, hsplit, hused, hdenotes⟩ := (soundAt _).pattern hparse
      -- The parser stops in front of an end marker.  There is only one, so all of `body` is used.
      suffices heq : body = used by rwa [heq]
      rcases List.append_eq_append_iff.1 hsplit with ⟨as, rfl, hrest⟩ | ⟨bs, rfl, hrest⟩
      · cases as with
        | nil => simp
        | cons t as =>
            obtain ⟨rfl, hnil⟩ := List.cons.inj hrest
            simp at hused
      · cases bs with
        | nil => simp
        | cons t bs =>
            subst hrest
            simp only [List.cons_append, peek] at hnext
            simp [hnext] at hbody
    · cases hend
  · intro h
    have hparse := (completeAt (4 * (body ++ [(⟨.stop, last⟩ : Located)]).length + 4)).pattern h
      (by simp; omega) [⟨.stop, last⟩] (by simp [peek])
    rw [parseTokens, hparse]
    rfl

/-- Tokens denote one pattern at most. -/
theorem Denotes.unique {ts : List Token} {p q : Pattern} (hp : Denotes ts p)
    (hq : Denotes ts q) : p = q := by
  have hwords : words (ts.map (⟨·, 0⟩)) = ts := by simp [words, Function.comp_def]
  rw [← hwords] at hp hq
  have hleft := (completeAt _).pattern hp (Nat.le_refl _) [] (by simp [peek])
  have hright := (completeAt _).pattern hq (Nat.le_refl _) [] (by simp [peek])
  rw [hleft] at hright
  cases hright
  rfl

theorem compile_of_scan {text : String} {tokens : List Located} (h : scan text = .ok tokens)
    {p : Pattern} : compile text = .ok p ↔ parseTokens tokens = .ok p := by
  simp only [compile, h]
  cases parseTokens tokens <;> simp

/-- A text that compiles has tokens that denote its pattern. -/
theorem denotes_of_compile {text : String} {p : Pattern} (h : compile text = .ok p) :
    ∃ body last, scan text = .ok (body ++ [⟨.stop, last⟩]) ∧ Denotes (words body) p := by
  cases hscan : scan text with
  | error fault => simp [compile, hscan] at h
  | ok tokens =>
      obtain ⟨body, last, rfl, hbody⟩ := scanFrom_eq_concat hscan
      rw [compile_of_scan hscan, parseTokens_eq_ok hbody] at h
      exact ⟨body, last, rfl, h⟩

/-- The compiler accepts exactly the grammar, and the grammar is unambiguous. -/
theorem compile_eq_ok_iff_denotes :
    (∀ {text : String} {tokens : List Located}, scan text = .ok tokens →
      ∃ body last, tokens = body ++ [⟨.stop, last⟩] ∧ .stop ∉ words body ∧
        ∀ p, compile text = .ok p ↔ Denotes (words body) p) ∧
      ∀ {ts : List Token} {p q : Pattern}, Denotes ts p → Denotes ts q → p = q := by
  refine ⟨?_, Denotes.unique⟩
  intro text tokens h
  obtain ⟨body, last, rfl, hbody⟩ := scanFrom_eq_concat h
  refine ⟨body, last, rfl, hbody, fun p => ?_⟩
  rw [compile_of_scan h, parseTokens_eq_ok hbody]

/-- An operator in front of braces, a choice, an open child list and a parenthesis. -/
theorem compile_braced_choice :
    ∃ tokens body last, scan "^\x7ba(_, ...) | !(7)\x7d" = .ok tokens ∧
      tokens = body ++ [⟨.stop, last⟩] ∧
      Denotes (words body)
        (.anywhere (.oneOf [.node "a" [.any] .atLeast, .not (.literal (.integer 7))])) := by
  have hscan : scan "^\x7ba(_, ...) | !(7)\x7d" = .ok [⟨.caret, 0⟩, ⟨.openBrace, 1⟩,
      ⟨.name "a", 2⟩, ⟨.openParen, 3⟩, ⟨.underscore, 4⟩, ⟨.comma, 5⟩, ⟨.ellipsis, 7⟩,
      ⟨.closeParen, 10⟩, ⟨.bar, 12⟩, ⟨.bang, 14⟩, ⟨.openParen, 15⟩, ⟨.integer 7, 16⟩,
      ⟨.closeParen, 17⟩, ⟨.closeBrace, 18⟩, ⟨.stop, 19⟩] := by
    decide +kernel
  obtain ⟨body, last, htokens, -, hiff⟩ := compile_eq_ok_iff_denotes.1 hscan
  exact ⟨_, body, last, hscan, htokens, (hiff _).1 (by decide +kernel)⟩

end Pattern

end TreeLint

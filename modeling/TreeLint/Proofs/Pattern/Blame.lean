import TreeLint.Proofs.Pattern.Blocking
import TreeLint.Proofs.Pattern.Standing

/-!
# Every fault is explained by the text

A fault of the parsers blames a token of the list, and the token is one that its cause fits.
Since tokens stand in the text, every fault of the compiler stands where a character begins
or the text ends, at something that explains it.
-/

namespace TreeLint

namespace Pattern

def Cause.Fits (t : Token) : Cause → Prop
  | .unexpectedToken found _ => t = found ∧ t ≠ .stop
  | .unexpectedEnd expected => t = .stop ∧ expected ≠ .ellipsis
  | .ellipsisNotLast => t = .ellipsis
  | .multipleEllipsis => t = .ellipsis
  | .ellipsisOutsideChildren => t = .ellipsis
  | .emptyAlternation => t = .openBrace
  | .trailingInput => t ≠ .stop
  | .unexpectedCharacter _ => False
  | .unterminatedString => False
  | .invalidEscape _ => False
  | .invalidNumber _ => False

def Blames {α : Type} (tokens : List Located) (x : Except Fault α) : Prop :=
  ∀ f, x = .error f → ∃ t ∈ tokens, f.position = t.offset ∧ f.cause.Fits t.token

namespace Blames

variable {α β : Type} {tokens : List Located} {x : Except Fault α}

theorem ok (a : α) : Blames tokens (.ok a : Except Fault α) := by
  intro f hf
  cases hf

theorem error {t : Located} {cause : Cause} (ht : t ∈ tokens) (hcause : cause.Fits t.token) :
    Blames tokens (.error ⟨cause, t.offset⟩ : Except Fault α) := by
  intro f hf
  cases hf
  exact ⟨t, ht, rfl, hcause⟩

theorem bind {f : α → Except Fault β} (hx : Blames tokens x)
    (hf : ∀ a, x = .ok a → Blames tokens (f a)) : Blames tokens (x >>= f) := by
  cases hresult : x with
  | error fault =>
      intro g hg
      cases hg
      exact hx fault hresult
  | ok a => exact hf a hresult

theorem unexpected {t : Located} {expected : Expectation} (ht : t ∈ tokens)
    (hexpected : expected ≠ .ellipsis) :
    Blames tokens (.error (Pattern.unexpected t expected) : Except Fault α) := by
  unfold Pattern.unexpected
  split
  · rename_i hstop
    exact .error ht ⟨hstop, hexpected⟩
  · rename_i hstop
    exact .error ht ⟨rfl, hstop⟩

end Blames

/-! ## The parsers blame their tokens -/

/-- The tokens are an end of the list in which its end marker stands. -/
structure Remains (tokens rest : List Located) : Prop where
  stop : .stop ∈ words rest
  isSuffix : rest <:+ tokens

section Remains

variable {tokens behind rest : List Located} {t : Located}

theorem Remains.refl (h : .stop ∈ words tokens) : Remains tokens tokens :=
  ⟨h, List.suffix_refl tokens⟩

theorem Remains.mem (h : Remains tokens rest) : ∀ t ∈ rest, t ∈ tokens :=
  fun _ ht => h.isSuffix.mem ht

theorem Remains.drop {used : List Located} (h : Remains tokens (used ++ rest))
    (hused : .stop ∉ words used) : Remains tokens rest := by
  refine ⟨?_, (List.suffix_append used rest).trans h.isSuffix⟩
  have hstop := h.stop
  rw [words_append, List.mem_append] at hstop
  exact hstop.resolve_left hused

theorem Remains.tail (h : Remains tokens (t :: rest)) (ht : t.token ≠ .stop) :
    Remains tokens rest := by
  have hbehind : Remains tokens ([t] ++ rest) := h
  exact hbehind.drop (by simpa using ht.symm)

theorem Remains.took {form : List Token → Prop} (h : Remains tokens behind)
    (htook : Took behind rest form) : Remains tokens rest := by
  obtain ⟨used, rfl, hused, -⟩ := htook
  exact h.drop hused

theorem Remains.peek_mem (h : Remains tokens rest) : peek rest ∈ tokens := by
  obtain ⟨t, tail, rfl⟩ := exists_cons_of_stop h.stop
  exact h.mem t List.mem_cons_self

theorem Remains.expect {token : Token} {expected : Expectation} (h : Remains tokens rest)
    (hexpected : expected ≠ .ellipsis) :
    Blames tokens (Pattern.expect token expected rest) := by
  unfold Pattern.expect
  split
  · exact .ok _
  · exact .unexpected h.peek_mem hexpected

theorem Remains.of_expect {token : Token} {expected : Expectation} (h : Remains tokens behind)
    (hexpect : Pattern.expect token expected behind = .ok rest) (htoken : token ≠ .stop) :
    Remains tokens rest := by
  obtain ⟨t, rfl, ht⟩ := expect_eq_ok.1 hexpect
  exact h.tail (by rwa [ht])

theorem Remains.of_eat? {token : Token} (h : Remains tokens behind)
    (heat : eat? token behind = some rest) (htoken : token ≠ .stop) : Remains tokens rest := by
  obtain ⟨t, rfl, ht⟩ := eat?_eq_some.1 heat
  exact h.tail (by rwa [ht])

end Remains

structure BlamesAt (tokens : List Located) (fuel : Nat) : Prop where
  pattern {rest : List Located} : Remains tokens rest → Blames tokens (parsePattern fuel rest)
  primary {rest : List Located} : Remains tokens rest → Blames tokens (parsePrimary fuel rest)
  members {rest : List Located} : Remains tokens rest → Blames tokens (parseMembers fuel rest)
  children {rest : List Located} : Remains tokens rest → Blames tokens (parseChildren fuel rest)
  entries {rest : List Located} : Remains tokens rest → Blames tokens (parseEntries fuel rest)

section BlamesAt

variable {tokens rest : List Located} {fuel : Nat}

theorem BlamesAt.pattern_succ (ih : BlamesAt tokens fuel) (h : Remains tokens rest) :
    Blames tokens (parsePattern (fuel + 1) rest) := by
  rw [parsePattern]
  split
  · rename_i behind hbang
    exact (ih.pattern (h.of_eat? hbang (by simp))).bind fun _ _ => .ok _
  · split
    · rename_i behind hcaret
      exact (ih.pattern (h.of_eat? hcaret (by simp))).bind fun _ _ => .ok _
    · exact ih.primary h

theorem BlamesAt.members_succ (ih : BlamesAt tokens fuel) (h : Remains tokens rest) :
    Blames tokens (parseMembers (fuel + 1) rest) := by
  rw [parseMembers]
  apply (ih.pattern h).bind
  rintro ⟨first, behind⟩ hfirst
  have hbehind := h.took ((soundAt fuel).pattern hfirst)
  dsimp only
  split
  · rename_i tail hbar
    exact (ih.members (hbehind.of_eat? hbar (by simp))).bind fun _ _ => .ok _
  · exact .ok _

theorem BlamesAt.entry (ih : BlamesAt tokens fuel) (h : Remains tokens rest) :
    Blames tokens (parseEntry fuel rest) := by
  unfold parseEntry
  split
  · exact .ok _
  · exact (ih.pattern h).bind fun _ _ => .ok _

theorem BlamesAt.entries_succ (ih : BlamesAt tokens fuel) (h : Remains tokens rest) :
    Blames tokens (parseEntries (fuel + 1) rest) := by
  rw [parseEntries_succ]
  apply (ih.entry h).bind
  rintro ⟨e, behind⟩ hentry
  obtain ⟨used, rfl, hused, -⟩ := (soundAt fuel).entry hentry
  have hbehind := h.drop hused
  dsimp only
  split
  · exact .ok _
  · apply (hbehind.expect (by simp)).bind
    intro tail hcomma
    exact (ih.entries (hbehind.of_expect hcomma (by simp))).bind fun _ _ => .ok _

theorem BlamesAt.inside (ih : BlamesAt tokens fuel) (h : Remains tokens rest) :
    Blames tokens (parseInside fuel rest) := by
  unfold parseInside
  split
  · exact .ok _
  · exact ih.entries h

theorem BlamesAt.children_succ (ih : BlamesAt tokens fuel) (h : Remains tokens rest) :
    Blames tokens (parseChildren (fuel + 1) rest) := by
  rw [parseChildren_succ]
  apply (h.expect (by simp)).bind
  intro inside hopen
  have hinside := h.of_expect hopen (by simp)
  apply (ih.inside hinside).bind
  rintro ⟨es, behind⟩ hes
  refine Blames.bind ?_ fun _ _ => .ok _
  intro f hf
  obtain ⟨hcause, hmem⟩ := closeList_eq_error hf
  obtain ⟨t, ht, htoken, hoffset⟩ := ellipsis_mem_of_parseInside hes hmem
  refine ⟨t, hinside.mem t ht, hoffset.symm, ?_⟩
  rcases hcause with hcause | hcause
  · rw [hcause]
    exact htoken
  · rw [hcause]
    exact htoken

theorem BlamesAt.bracketed (ih : BlamesAt tokens fuel) (h : Remains tokens rest) {close : Token}
    {expected : Expectation} (hexpected : expected ≠ .ellipsis) (f : List Pattern → Pattern) :
    Blames tokens (parseMembers fuel rest >>= fun r =>
      expect close expected r.2 >>= fun behind => .ok (f r.1, behind)) := by
  apply (ih.members h).bind
  rintro ⟨ps, behind⟩ hmembers
  have hbehind := h.took ((soundAt fuel).members hmembers)
  exact (hbehind.expect hexpected).bind fun _ _ => .ok _

/-- A name or `_`, with a child list if one comes next. -/
theorem BlamesAt.named (ih : BlamesAt tokens fuel) (h : Remains tokens rest) (p : Pattern)
    (f : List Pattern × Arity → Pattern) :
    Blames tokens (if (peek rest).token = .openParen then
      parseChildren fuel rest >>= fun r => .ok (f r.1, r.2) else .ok (p, rest)) := by
  split
  · exact (ih.children h).bind fun _ _ => .ok _
  · exact .ok _

theorem BlamesAt.primary_succ (ih : BlamesAt tokens fuel) (h : Remains tokens rest) :
    Blames tokens (parsePrimary (fuel + 1) rest) := by
  obtain ⟨⟨token, offset⟩, behind, rfl⟩ := exists_cons_of_stop h.stop
  have hmem := h.mem _ List.mem_cons_self
  rw [parsePrimary]
  cases token with
  | underscore =>
      exact ih.named (h.tail (by simp)) .any fun c => .children c.1 c.2
  | name k => exact ih.named (h.tail (by simp)) (.kind k) fun c => .node k c.1 c.2
  | string s => exact .ok _
  | integer n => exact .ok _
  | float x => exact .ok _
  | true => exact .ok _
  | false => exact .ok _
  | nil => exact .ok _
  | openBrace =>
      simp only [advance, reduceCtorEq, if_false]
      split
      · exact .error hmem rfl
      · exact ih.bracketed (h.tail (by simp)) (by simp) .oneOf
  | openParen => exact ih.bracketed (h.tail (by simp)) (by simp) grouped
  | ellipsis => exact .error hmem rfl
  | _ => exact .unexpected hmem (by simp)

theorem blamesAt (tokens : List Located) (fuel : Nat) : BlamesAt tokens fuel := by
  induction fuel with
  | zero =>
      -- Without fuel, the next token is blamed.
      have hempty : ∀ {α : Type} {rest : List Located}, Remains tokens rest →
          Blames tokens (.error (unexpected (peek rest) .pattern) : Except Fault α) :=
        fun h => .unexpected h.peek_mem (by simp)
      refine ⟨?_, ?_, ?_, ?_, ?_⟩
      all_goals
        intro rest h
        exact hempty h
  | succ fuel ih =>
      exact ⟨ih.pattern_succ, ih.primary_succ, ih.members_succ, ih.children_succ, ih.entries_succ⟩

end BlamesAt

theorem parseTokens_blames {tokens : List Located} (hstop : .stop ∈ words tokens) :
    Blames tokens (parseTokens tokens) := by
  have hall := Remains.refl hstop
  unfold parseTokens
  apply ((blamesAt tokens _).pattern hall).bind
  rintro ⟨p, rest⟩ hpattern
  have hrest := hall.took ((soundAt _).pattern hpattern)
  dsimp only
  split
  · exact .ok _
  · rename_i hnext
    exact .error hrest.peek_mem hnext

/-! ## Faults of the compiler -/

/-- What a token begins with explains the faults that it is blamed for. -/
theorem Cause.Fits.shows {cause : Cause} {t : Token} {rest : List Char} (h : cause.Fits t)
    (hheads : Heads t rest) : cause.Shows rest := by
  cases cause with
  | unexpectedToken found expected => exact fun hrest => h.2 (hheads.stop.2 hrest)
  | unexpectedEnd expected => exact .inr ⟨h.2, hheads.stop.1 h.1⟩
  | ellipsisNotLast => exact hheads.ellipsis h
  | multipleEllipsis => exact hheads.ellipsis h
  | ellipsisOutsideChildren => exact hheads.ellipsis h
  | emptyAlternation => exact hheads.brace h
  | trailingInput => exact fun hrest => h (hheads.stop.2 hrest)
  | _ => exact h.elim

theorem compile_explained {text : String} {e : Error} (h : compile text = .error e) :
    e.text = text ∧ Explained text.toList e.fault := by
  unfold compile at h
  split at h
  · rename_i fault hscan
    cases h
    exact ⟨rfl, scanFrom_explained (.start _) hscan⟩
  · rename_i tokens hscan
    split at h
    · rename_i fault hparse
      cases h
      obtain ⟨body, last, rfl, -⟩ := scanFrom_eq_concat hscan
      obtain ⟨t, ht, hplace, hfits⟩ := parseTokens_blames (by simp) fault hparse
      obtain ⟨rest, hstands, hheads⟩ := scanFrom_marks (.start _) hscan t ht
      exact ⟨rfl, rest, by rwa [hplace], hfits.shows hheads⟩
    · cases h

/-- Only the end of a pattern that goes on is found at the end of the text. -/
theorem Cause.Shows.eq_nil_iff {cause : Cause} {rest : List Char} (h : cause.Shows rest) :
    rest = [] ↔ ∃ expected, cause = .unexpectedEnd expected ∧ expected ≠ .ellipsis := by
  constructor
  · rintro rfl
    cases cause with
    | unexpectedEnd expected =>
        rcases h with ⟨-, hpoints | hpoints⟩ | ⟨hexpected, -⟩
        · cases hpoints
        · cases hpoints
        · exact ⟨expected, rfl, hexpected⟩
    | invalidNumber raw =>
        have hraw : raw.toList = [] := List.prefix_nil.1 h.2
        exact absurd (String.toList_eq_nil_iff.1 hraw) h.1
    | _ => simp [Cause.Shows] at h
  · rintro ⟨expected, rfl, hexpected⟩
    rcases h with ⟨hellipsis, -⟩ | ⟨-, hrest⟩
    · exact absurd hellipsis hexpected
    · exact hrest

/--
A fault of the compiler carries the text.  It stands where a character begins or the text
ends, at the end exactly if the text ends too early for a pattern, and what stands there
explains it.
-/
theorem error_explained_by_text {text : String} {e : Error} (h : compile text = .error e) :
    e.text = text ∧ e.fault.position ≤ text.utf8ByteSize ∧
      (e.fault.position = text.utf8ByteSize ↔
        ∃ expected, e.fault.cause = .unexpectedEnd expected ∧ expected ≠ .ellipsis) ∧
      ∃ before rest : String, text = before ++ rest ∧ before.utf8ByteSize = e.fault.position ∧
        e.fault.cause.Shows rest.toList := by
  obtain ⟨htext, rest, ⟨before, hsplit, hbefore⟩, hshows⟩ := compile_explained h
  have hsize : text.utf8ByteSize = e.fault.position + Text.byteLength rest := by
    rw [← Text.byteLength_toList, hsplit, Text.byteLength_append, hbefore]
  refine ⟨htext, by omega, ?_, String.ofList before, String.ofList rest, ?_, ?_, ?_⟩
  · rw [← hshows.eq_nil_iff, hsize]
    constructor
    · intro hend
      by_contra hne
      have hpos := Text.byteLength_pos hne
      omega
    · intro hnil
      rw [hnil]
      rfl
  · rw [← String.ofList_append, ← hsplit, String.ofList_toList]
  · rw [← Text.byteLength_toList, String.toList_ofList, hbefore]
  · rwa [String.toList_ofList]

/-- A blank of three bytes in front of an empty choice. -/
theorem compile_empty_choice_behind_blank :
    compile "a(\u3000\x7b \x7d, b)" =
        .error ⟨"a(\u3000\x7b \x7d, b)", ⟨.emptyAlternation, 5⟩⟩ ∧
      5 < "a(\u3000\x7b \x7d, b)".utf8ByteSize ∧
      ∃ before rest : String, "a(\u3000\x7b \x7d, b)" = before ++ rest ∧
        before.utf8ByteSize = 5 ∧ ['\x7b'] <+: rest.toList := by
  have herror : compile "a(\u3000\x7b \x7d, b)" =
      .error ⟨"a(\u3000\x7b \x7d, b)", ⟨.emptyAlternation, 5⟩⟩ := by
    decide +kernel
  obtain ⟨-, hle, hend, hplace⟩ := error_explained_by_text herror
  refine ⟨herror, ?_, hplace⟩
  apply lt_of_le_of_ne hle
  intro heq
  obtain ⟨expected, hcause, -⟩ := hend.1 heq
  cases hcause

end Pattern

end TreeLint

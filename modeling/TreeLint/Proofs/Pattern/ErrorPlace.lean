import TreeLint.Proofs.Pattern.Blocking
import TreeLint.Proofs.Pattern.Compiling

/-!
# Where a pattern text goes wrong

A fault that blames a token stands at the first token that cannot come next: what stands
before the token can be completed to a pattern, and nothing that goes on with the token
is one.
-/

namespace TreeLint

namespace Pattern

open Reading

/-! ## Offsets of tokens -/

theorem scanString_offset_lt {quote : Char} {start offset : Nat} {acc cs : List Char}
    {l : Lexeme} (h : scanString quote start acc cs offset = .ok l) : offset < l.offset := by
  fun_induction scanString quote start acc cs offset with
  | case2 =>
      cases h
      simp
  | case4 _ _ _ _ _ _ _ ih =>
      have hlater := ih h
      omega
  | case5 _ _ _ _ _ _ _ _ _ _ ih =>
      have hlater := ih h
      omega
  | case8 _ _ _ _ _ _ ih =>
      have hlater := ih h
      omega
  | _ => cases h

theorem scanToken_offset_lt {offset : Nat} {c : Char} {cs : List Char} {l : Lexeme}
    (h : scanToken offset c cs = .ok l) : offset < l.offset := by
  obtain ⟨scanner, hscanner, heq⟩ := exists_scannedBy c
  rw [heq] at h
  cases hscanner with
  | sign =>
      cases h
      simp
  | ellipsis =>
      unfold scanEllipsis at h
      split at h <;> cases h
      simp
  | string =>
      have hbehind := scanString_offset_lt h
      omega
  | number =>
      simp only [scanNumber] at h
      split at h <;> cases h
      simp
  | word =>
      cases h
      simp [scanWord]
  | none => cases h

/-- Tokens stand one behind another. -/
theorem scanFrom_offsets {cs : List Char} {offset : Nat} {tokens : List Located}
    (h : scanFrom cs offset = .ok tokens) :
    (∀ t ∈ tokens, offset ≤ t.offset) ∧
      tokens.Pairwise fun t u => t.offset < u.offset := by
  fun_induction scanFrom cs offset generalizing tokens with
  | case1 offset =>
      cases h
      simp
  | case2 offset c rest _ ih =>
      obtain ⟨hle, hsorted⟩ := ih h
      exact ⟨fun t ht => by have := hle t ht; omega, hsorted⟩
  | case3 => cases h
  | case4 => cases h
  | case5 offset c rest _ lexeme hlexeme _ tail htail ih =>
      cases h
      obtain ⟨hle, hsorted⟩ := ih htail
      have hlt := scanToken_offset_lt hlexeme
      have hbehind : ∀ t ∈ tail, offset < t.offset := by
        intro t ht
        have := hle t ht
        omega
      refine ⟨?_, List.pairwise_cons.2 ⟨hbehind, hsorted⟩⟩
      intro t ht
      rcases List.mem_cons.1 ht with rfl | ht
      · exact Nat.le_refl _
      · exact Nat.le_of_lt (hbehind t ht)

theorem scan_index_unique {text : String} {before rest : List Located} {t : Located}
    (h : scan text = .ok (before ++ t :: rest)) {i : Nat}
    (hi : (before ++ t :: rest)[i]?.map Located.offset = some t.offset) : i = before.length := by
  have hsorted := (scanFrom_offsets h).2
  have hnodup : ((before ++ t :: rest).map Located.offset).Nodup := by
    rw [List.nodup_iff_pairwise_ne, List.pairwise_map]
    exact hsorted.imp fun hlt heq => by omega
  rw [← List.getElem?_map] at hi
  have hlength : i < ((before ++ t :: rest).map Located.offset).length := by
    obtain ⟨hlt, -⟩ := List.getElem?_eq_some_iff.1 hi
    exact hlt
  refine (List.getElem?_inj hlength hnodup).1 ?_
  rw [hi]
  simp

/-! ## Complete lists of tokens -/

theorem parseTokens_of_parsePattern {tokens rest : List Located} {p : Pattern}
    (h : parsePattern (4 * tokens.length + 4) tokens = .ok (p, rest)) :
    parseTokens tokens =
      if (peek rest).token = .stop then .ok p
      else .error ⟨.trailingInput, (peek rest).offset⟩ := by
  rw [parseTokens, h]
  rfl

theorem parsePattern_of_parseTokens {tokens : List Located} {p : Pattern}
    (h : parseTokens tokens = .ok p) :
    ∃ rest, parsePattern (4 * tokens.length + 4) tokens = .ok (p, rest) ∧
      (peek rest).token = .stop := by
  obtain ⟨⟨p', rest⟩, hpattern, -⟩ := bind_eq_ok.1 h
  rw [parseTokens_of_parsePattern hpattern] at h
  split at h
  · cases h
    exact ⟨rest, hpattern, by assumption⟩
  · cases h

theorem parseTokens_fails {tokens : List Located} {f : Fault} (hstop : .stop ∈ words tokens)
    (h : parseTokens tokens = .error f) : Fails start tokens f := by
  have htracks := (followsAt (4 * tokens.length + 4)).pattern [] ⟨hstop, by omega⟩
  cases hpattern : parsePattern (4 * tokens.length + 4) tokens with
  | error f' =>
      rw [parseTokens, hpattern] at h
      rw [hpattern] at htracks
      cases h
      exact htracks
  | ok result =>
      obtain ⟨p, rest⟩ := result
      rw [parseTokens_of_parsePattern hpattern] at h
      rw [hpattern] at htracks
      obtain ⟨q, hpass, hq⟩ := htracks
      obtain ⟨t, tail, rfl⟩ := exists_cons_of_stop (hpass.stop_mem hq.phase_ne.1 hstop)
      split at h
      · cases h
      · rename_i ht
        cases h
        refine .inl ⟨q, t, tail, hpass, ?_, fun _ => rfl⟩
        rw [show q.step t.token = _ from hq.step_eq]
        exact if_neg ht

/-- What is read to its end and has no ellipsis is accepted. -/
theorem exists_parseTokens_of_reads {tokens : List Located} (hstop : .stop ∈ words tokens)
    (hellipsis : .ellipsis ∉ words tokens) {q : Reading} (h : Reads start (words tokens) q) :
    ∃ p, parseTokens tokens = .ok p := by
  cases hparse : parseTokens tokens with
  | ok p => exact ⟨p, rfl⟩
  | error f =>
      rcases parseTokens_fails hstop hparse with hblocks | ⟨-, hmem⟩
      · obtain ⟨r, t, rest, ⟨used, rfl, hused⟩, hnone, -⟩ := hblocks
        rw [words_append, words_cons] at h
        exact absurd h (hused.not_of_step_none hnone)
      · exact absurd hmem hellipsis

/-- There is one end marker, so two ways to cut the tokens in front of it agree. -/
theorem eq_of_append_stop {body used tail : List Located} {last t : Located}
    (hbody : .stop ∉ words body) (ht : t.token = .stop)
    (h : body ++ [last] = used ++ t :: tail) : used = body := by
  rcases List.eq_nil_or_concat tail with rfl | ⟨init, z, rfl⟩
  · exact (List.append_inj' h rfl).1.symm
  · have hsplit : body ++ [last] = (used ++ t :: init) ++ [z] := by simpa using h
    have hinside := (List.append_inj' hsplit rfl).1
    simp [hinside, ht] at hbody

theorem reads_of_denotes {body : List Located} {p : Pattern} (hbody : .stop ∉ words body)
    (h : Denotes (words body) p) : Reads start (words body ++ [.stop]) ⟨.ended, []⟩ := by
  have hparse : parseTokens (body ++ [⟨.stop, 0⟩]) = .ok p := (parseTokens_eq_ok hbody).2 h
  obtain ⟨rest, hpattern, hnext⟩ := parsePattern_of_parseTokens hparse
  have hstop : .stop ∈ words (body ++ [(⟨.stop, 0⟩ : Located)]) := by simp
  have htracks := (followsAt (4 * (body ++ [(⟨.stop, 0⟩ : Located)]).length + 4)).pattern []
    ⟨hstop, by omega⟩
  rw [hpattern] at htracks
  obtain ⟨q, hpass, hq⟩ := htracks
  obtain ⟨t, tail, rfl⟩ := exists_cons_of_stop (hpass.stop_mem hq.phase_ne.1 hstop)
  obtain ⟨used, hsplit, hused⟩ := hpass
  rw [eq_of_append_stop hbody hnext hsplit] at hused
  have hstep := hq.step_eq
  rw [hnext] at hstep
  exact reads_append.2 ⟨q, hused, .cons hstep (.nil _)⟩

/-- What the parser accepts is read up to an end marker. -/
theorem reads_of_parseTokens {tokens : List Located} {p : Pattern}
    (h : parseTokens tokens = .ok p) :
    ∃ ts, Reads start (ts ++ [.stop]) ⟨.ended, []⟩ ∧ ts ++ [.stop] <+: words tokens ++ [.stop] := by
  obtain ⟨rest, hpattern, hnext⟩ := parsePattern_of_parseTokens h
  obtain ⟨used, rfl, hused, hdenotes⟩ := (soundAt _).pattern hpattern
  refine ⟨words used, reads_of_denotes hused hdenotes, ?_⟩
  rw [words_append, List.append_assoc, List.prefix_append_right_inj]
  cases rest with
  | nil => simp
  | cons t tail => simp [show t.token = .stop from hnext]

/-! ## Before and behind the token to blame -/

/-- What is read without an end can be completed, with `_` in place of every `...`. -/
theorem exists_completion {ts : List Token} {q : Reading} (h : Reads start ts q)
    (hstop : .stop ∉ ts) :
    ∃ more, .stop ∉ more ∧ ∀ list, words list = ts.map Token.filled ++ more ++ [.stop] →
      ∃ p, parseTokens list = .ok p := by
  -- A misplaced `...` is no fault yet, but no completion would mend it: `_` takes its place.
  obtain ⟨q', hfilled, hcovers⟩ := (Covers.refl start).reads h
  have hphase : q'.phase ≠ .ended := by
    have hq : q.phase ≠ .ended := h.not_ended (by simp [start]) hstop
    cases hcovers with
    | refl => exact hq
    | named opened => simp
  obtain ⟨hnostop, hnoellipsis⟩ := not_mem_completion q'
  refine ⟨q'.completion, hnostop, ?_⟩
  intro list hlist
  have hreads : Reads start (words list) ⟨.ended, []⟩ := by
    rw [hlist, List.append_assoc]
    exact reads_append.2 ⟨q', hfilled, reads_completion hphase⟩
  refine exists_parseTokens_of_reads (by simp [hlist]) ?_ hreads
  simp [hlist, hnoellipsis, Token.filled_ne_ellipsis]

/-- Nothing that goes on with a token that cannot come next is accepted. -/
theorem parseTokens_ne_ok {ts : List Token} {t : Token} {q : Reading} (h : Reads start ts q)
    (hstop : .stop ∉ ts) (hnone : q.step t = none) {list : List Located}
    (hbegins : ts ++ [t] <+: words list) (p : Pattern) : parseTokens list ≠ .ok p := by
  intro hparse
  obtain ⟨us, hreads, hus⟩ := reads_of_parseTokens hparse
  have hts : ts ++ [t] <+: words list ++ [.stop] := hbegins.trans (List.prefix_append _ _)
  rcases List.prefix_or_prefix_of_prefix hts hus with ⟨behind, hbehind⟩ | hshort
  · rw [← hbehind, List.append_assoc] at hreads
    exact h.not_of_step_none hnone hreads
  · rcases List.prefix_concat_iff.1 hshort with heq | hinside
    · rw [heq] at hreads
      exact h.not_of_step_none hnone hreads
    · exact hstop (hinside.mem (by simp))

/-- A fault that blames a token stands at the first token that cannot come next: with `_` in
place of every `...`, the tokens before it begin a list that is accepted, and no list is
accepted that begins with the tokens up to it. -/
theorem error_at_first_blocked_token {text : String} {tokens : List Located} {e : Error}
    (hscan : scan text = .ok tokens) (herror : compile text = .error e)
    (hcause : e.fault.cause.blamesToken = true) :
    (∃ i : Nat, tokens[i]?.map Located.offset = some e.fault.position) ∧
      ∀ i : Nat, tokens[i]?.map Located.offset = some e.fault.position →
        (∃ more, .stop ∉ more ∧
          ∀ list, words list = (words (tokens.take i)).map Token.filled ++ more ++ [.stop] →
            ∃ p, parseTokens list = .ok p) ∧
          ∀ list p, words (tokens.take (i + 1)) <+: words list → parseTokens list ≠ .ok p := by
  obtain ⟨body, last, hbody, hstop⟩ := scanFrom_eq_concat hscan
  have hfails : Fails start tokens e.fault := by
    refine parseTokens_fails (by simp [hbody]) ?_
    simp only [compile, hscan] at herror
    split at herror <;> cases herror
    assumption
  obtain ⟨q, t, rest, ⟨used, rfl, hused⟩, hnone, hplace⟩ | ⟨hother, -⟩ := hfails
  · have hbefore : .stop ∉ words used := by
      rcases List.prefix_concat_iff.1 ⟨t :: rest, hbody⟩ with rfl | hbegins
      · simp at hbody
      · exact fun hmem => hstop ((hbegins.map Located.token).mem hmem)
    rw [hplace hcause]
    refine ⟨⟨used.length, by simp⟩, ?_⟩
    intro i hi
    obtain rfl := scan_index_unique hscan hi
    refine ⟨?_, ?_⟩
    · rw [List.take_left]
      exact exists_completion hused hbefore
    · intro list p hbegins
      rw [List.take_length_add_append, words_append] at hbegins
      exact parseTokens_ne_ok hused hbefore hnone hbegins p
  · rw [hcause] at hother
    cases hother

/-- A bar between the entries of a child list, behind a misplaced ellipsis. -/
theorem compile_bar_among_children :
    ∃ tokens, scan "\x7ba(..., !b | c" = .ok tokens ∧ tokens[7]? = some ⟨.bar, 11⟩ ∧
      compile "\x7ba(..., !b | c" =
        .error ⟨"\x7ba(..., !b | c", ⟨.unexpectedToken .bar .commaOrParen, 11⟩⟩ ∧
      (∃ more, .stop ∉ more ∧
        ∀ list, words list = [.openBrace, .name "a", .openParen, .underscore, .comma, .bang,
            .name "b"] ++ more ++ [.stop] →
          ∃ p, parseTokens list = .ok p) ∧
      ∀ list p, [.openBrace, .name "a", .openParen, .ellipsis, .comma, .bang, .name "b",
          .bar] <+: words list → parseTokens list ≠ .ok p := by
  have hscan : scan "\x7ba(..., !b | c" = .ok [⟨.openBrace, 0⟩, ⟨.name "a", 1⟩, ⟨.openParen, 2⟩,
      ⟨.ellipsis, 3⟩, ⟨.comma, 6⟩, ⟨.bang, 8⟩, ⟨.name "b", 9⟩, ⟨.bar, 11⟩, ⟨.name "c", 13⟩,
      ⟨.stop, 14⟩] := by
    decide +kernel
  have herror : compile "\x7ba(..., !b | c" =
      .error ⟨"\x7ba(..., !b | c", ⟨.unexpectedToken .bar .commaOrParen, 11⟩⟩ := by
    decide +kernel
  obtain ⟨hcomplete, hblocked⟩ := (error_at_first_blocked_token hscan herror rfl).2 7 rfl
  exact ⟨_, hscan, rfl, herror, hcomplete, hblocked⟩

end Pattern

end TreeLint

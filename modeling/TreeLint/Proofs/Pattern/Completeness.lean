import TreeLint.Proofs.Pattern.Soundness

/-!
# A phrase is taken as a whole

Completeness of the parsers, by induction on the fuel.  The fuel that a phrase
needs grows with its number of tokens, and `parseTokens` supplies enough of it
for every phrase of its tokens.
-/

namespace TreeLint

namespace Pattern

/-- Tokens with which a pattern without an operator in front can begin. -/
def startsPrimary : Token → Bool
  | .underscore | .name _ | .string _ | .integer _ | .float _ => true
  | .true | .false | .nil | .openBrace | .openParen => true
  | .ellipsis | .closeParen | .closeBrace | .bar | .comma | .bang | .caret | .stop => false

def startsPattern (t : Token) : Bool :=
  t = .bang || t = .caret || startsPrimary t

theorem DenotesPrimary.head {ts : List Token} {p : Pattern} (h : DenotesPrimary ts p) :
    ∃ t us, ts = t :: us ∧ startsPrimary t := by
  cases h <;> exact ⟨_, _, rfl, rfl⟩

theorem Denotes.head {ts : List Token} {p : Pattern} (h : Denotes ts p) :
    ∃ t us, ts = t :: us ∧ startsPattern t := by
  cases h with
  | not h => exact ⟨.bang, _, rfl, rfl⟩
  | anywhere h => exact ⟨.caret, _, rfl, rfl⟩
  | primary h =>
      obtain ⟨t, us, rfl, ht⟩ := h.head
      exact ⟨t, us, rfl, by simp [startsPattern, ht]⟩

theorem DenotesEach.head {separator : Token} {ts : List Token} {ps : List Pattern}
    (h : DenotesEach separator ts ps) : ∃ t us, ts = t :: us ∧ startsPattern t := by
  cases h with
  | one h => exact h.head
  | more h _ =>
      obtain ⟨t, us, rfl, ht⟩ := h.head
      exact ⟨t, _, rfl, ht⟩

theorem DenotesEach.ne_nil {separator : Token} {ts : List Token} {ps : List Pattern}
    (h : DenotesEach separator ts ps) : ps ≠ [] := by
  cases h <;> simp

theorem DenotesChildren.head {ts : List Token} {items : List Pattern} {arity : Arity}
    (h : DenotesChildren ts items arity) : ∃ us, ts = .openParen :: us := by
  cases h <;> exact ⟨_, rfl⟩

theorem ReadsEntry.head {ts : List Located} {e : Entry} (h : ReadsEntry ts e) :
    ∃ t us, ts = t :: us ∧ (t.token = .ellipsis ∨ startsPattern t.token) := by
  cases h with
  | ellipsis ht => exact ⟨_, [], rfl, .inl ht⟩
  | item h =>
      obtain ⟨token, us, hts, hstart⟩ := h.head
      obtain ⟨t, vs, rfl, rfl, -⟩ := List.map_eq_cons_iff.1 hts
      exact ⟨t, vs, rfl, .inr hstart⟩

theorem ReadsEntries.head {ts : List Located} {es : List Entry} (h : ReadsEntries ts es) :
    ∃ t us, ts = t :: us ∧ (t.token = .ellipsis ∨ startsPattern t.token) := by
  cases h with
  | last h _ =>
      obtain ⟨t, us, rfl, ht⟩ := h.head
      exact ⟨t, _, rfl, ht⟩
  | more h _ _ =>
      obtain ⟨t, us, rfl, ht⟩ := h.head
      exact ⟨t, _, rfl, ht⟩

/-- The next token is the first one of a phrase that is not empty. -/
theorem peek_of_words {used : List Located} {t : Token} {us : List Token}
    (h : words used = t :: us) (rest : List Located) : (peek (used ++ rest)).token = t := by
  obtain ⟨t', used', rfl, rfl, -⟩ := List.map_eq_cons_iff.1 h
  rfl

/-- Items are entries. -/
theorem readsEntries_items {items : List Pattern} {used : List Located} {close : Located}
    (hclose : close.token = .closeParen) (h : DenotesEach .comma (words used) items) :
    ReadsEntries (used ++ [close]) (items.map Entry.item) := by
  induction items generalizing used with
  | nil => exact absurd rfl h.ne_nil
  | cons p ps ih =>
      generalize hts : words used = ts at h
      cases h with
      | one h =>
          subst hts
          exact .last (.item h) hclose
      | more h hs =>
          obtain ⟨front, back, rfl, rfl, hback⟩ := List.map_eq_append_iff.1 hts
          obtain ⟨comma, behind, rfl, hcomma, rfl⟩ := List.map_eq_cons_iff.1 hback
          have hmore := ReadsEntries.more (.item h) hcomma (ih hs)
          simpa using hmore

/-- Items with an ellipsis behind them are entries. -/
theorem readsEntries_items_ellipsis {items : List Pattern} {used : List Located}
    {comma ellipsis close : Located} (hcomma : comma.token = .comma)
    (hellipsis : ellipsis.token = .ellipsis) (hclose : close.token = .closeParen)
    (h : DenotesEach .comma (words used) items) :
    ReadsEntries (used ++ [comma, ellipsis, close])
      (items.map Entry.item ++ [.ellipsis ellipsis.offset]) := by
  have hend : ReadsEntries [ellipsis, close] [.ellipsis ellipsis.offset] :=
    .last (.ellipsis hellipsis) hclose
  induction items generalizing used with
  | nil => exact absurd rfl h.ne_nil
  | cons p ps ih =>
      generalize hts : words used = ts at h
      cases h with
      | one h =>
          subst hts
          exact .more (.item h) hcomma hend
      | more h hs =>
          obtain ⟨front, back, rfl, rfl, hback⟩ := List.map_eq_append_iff.1 hts
          obtain ⟨comma', behind, rfl, hcomma', rfl⟩ := List.map_eq_cons_iff.1 hback
          have hmore := ReadsEntries.more (.item h) hcomma' (ih hs)
          simpa using hmore

/--
With the given fuel the parsers take every phrase of the grammar that is short
enough.  The token behind the phrase must not extend it: a parenthesis would
extend a name, and a bar a list of members.
-/
structure CompleteAt (fuel : Nat) : Prop where
  pattern {used : List Located} {p : Pattern} : Denotes (words used) p →
    4 * used.length + 1 ≤ fuel → ∀ rest, (peek rest).token ≠ .openParen →
      parsePattern fuel (used ++ rest) = .ok (p, rest)
  primary {used : List Located} {p : Pattern} : DenotesPrimary (words used) p →
    4 * used.length ≤ fuel → ∀ rest, (peek rest).token ≠ .openParen →
      parsePrimary fuel (used ++ rest) = .ok (p, rest)
  members {used : List Located} {ps : List Pattern} : DenotesEach .bar (words used) ps →
    4 * used.length + 2 ≤ fuel → ∀ rest, (peek rest).token ≠ .openParen →
      (peek rest).token ≠ .bar → parseMembers fuel (used ++ rest) = .ok (ps, rest)
  children {used : List Located} {items : List Pattern} {arity : Arity} :
    DenotesChildren (words used) items arity → 4 * used.length + 3 ≤ fuel →
      ∀ rest, parseChildren fuel (used ++ rest) = .ok ((items, arity), rest)
  entries {used : List Located} {es : List Entry} : ReadsEntries used es →
    4 * used.length + 2 ≤ fuel →
      ∀ rest, parseEntries fuel (used ++ rest) = .ok (es, rest)

variable {fuel : Nat}

theorem CompleteAt.pattern_succ (ih : CompleteAt fuel) {used : List Located} {p : Pattern}
    (h : Denotes (words used) p) (hfuel : 4 * used.length + 1 ≤ fuel + 1)
    (rest : List Located) (hrest : (peek rest).token ≠ .openParen) :
    parsePattern (fuel + 1) (used ++ rest) = .ok (p, rest) := by
  generalize hts : words used = ts at h
  cases h with
  | not h =>
      obtain ⟨⟨token, offset⟩, behind, rfl, rfl, rfl⟩ := List.map_eq_cons_iff.1 hts
      simp only [List.length_cons] at hfuel
      have hinner := ih.pattern h (by omega) rest hrest
      simp only [List.cons_append, parsePattern, eat?, if_true, hinner]
      rfl
  | anywhere h =>
      obtain ⟨⟨token, offset⟩, behind, rfl, rfl, rfl⟩ := List.map_eq_cons_iff.1 hts
      simp only [List.length_cons] at hfuel
      have hinner := ih.pattern h (by omega) rest hrest
      simp only [List.cons_append, parsePattern, eat?, reduceCtorEq, if_false, if_true, hinner]
      rfl
  | primary h =>
      obtain ⟨t, us, rfl, ht⟩ := h.head
      have hnext := peek_of_words hts rest
      have hbang : eat? .bang (used ++ rest) = none :=
        eat?_eq_none (by rw [hnext]; rintro rfl; simp [startsPrimary] at ht)
      have hcaret : eat? .caret (used ++ rest) = none :=
        eat?_eq_none (by rw [hnext]; rintro rfl; simp [startsPrimary] at ht)
      rw [parsePattern, hbang, hcaret]
      exact ih.primary (hts ▸ h) (by omega) rest hrest

theorem CompleteAt.members_succ (ih : CompleteAt fuel) {used : List Located} {ps : List Pattern}
    (h : DenotesEach .bar (words used) ps) (hfuel : 4 * used.length + 2 ≤ fuel + 1)
    (rest : List Located) (hparen : (peek rest).token ≠ .openParen)
    (hbar : (peek rest).token ≠ .bar) :
    parseMembers (fuel + 1) (used ++ rest) = .ok (ps, rest) := by
  generalize hts : words used = ts at h
  cases h with
  | one h =>
      have hone := ih.pattern (hts ▸ h) (by omega) rest hparen
      rw [parseMembers, hone]
      simp only [bind, Except.bind, eat?_eq_none hbar]
      rfl
  | more h hs =>
      obtain ⟨front, back, rfl, rfl, hback⟩ := List.map_eq_append_iff.1 hts
      obtain ⟨t, behind, rfl, ht, rfl⟩ := List.map_eq_cons_iff.1 hback
      simp only [List.length_append, List.length_cons] at hfuel
      have hfirst := ih.pattern h (by omega) (t :: (behind ++ rest)) (by simp [peek, ht])
      have hothers := ih.members hs (by omega) rest hparen hbar
      rw [List.append_assoc, List.cons_append, parseMembers, hfirst]
      simp only [bind, Except.bind, eat?, ht, if_true, hothers]
      rfl

theorem CompleteAt.entry (ih : CompleteAt fuel) {used : List Located} {e : Entry}
    (h : ReadsEntry used e) (hfuel : 4 * used.length + 1 ≤ fuel)
    (rest : List Located) (hrest : (peek rest).token ≠ .openParen) :
    parseEntry fuel (used ++ rest) = .ok (e, rest) := by
  cases h with
  | ellipsis ht => simp [parseEntry, eat?, ht, peek]
  | item h =>
      obtain ⟨t, us, hts, ht⟩ := h.head
      have hellipsis : eat? .ellipsis (used ++ rest) = none :=
        eat?_eq_none (by
          rw [peek_of_words hts rest]
          rintro rfl
          simp [startsPattern, startsPrimary] at ht)
      rw [parseEntry, hellipsis, ih.pattern h hfuel rest hrest]
      rfl

theorem CompleteAt.entries_succ (ih : CompleteAt fuel) {used : List Located} {es : List Entry}
    (h : ReadsEntries used es) (hfuel : 4 * used.length + 2 ≤ fuel + 1) (rest : List Located) :
    parseEntries (fuel + 1) (used ++ rest) = .ok (es, rest) := by
  rw [parseEntries_succ]
  cases h with
  | @last front t e h ht =>
      simp only [List.length_append, List.length_cons, List.length_nil] at hfuel
      have hentry := ih.entry h (by omega) (t :: rest) (by simp [peek, ht])
      rw [List.append_assoc, List.cons_append, List.nil_append, hentry]
      simp [bind, Except.bind, eat?, ht]
  | @more front behind t e es h ht hs =>
      simp only [List.length_append, List.length_cons] at hfuel
      have hentry := ih.entry h (by omega) (t :: (behind ++ rest)) (by simp [peek, ht])
      have hothers := ih.entries hs (by omega) rest
      rw [List.append_assoc, List.cons_append, hentry]
      simp [bind, Except.bind, eat?, expect, ht, hothers]

/-- A child list that does not close at once is read entry by entry and then closed. -/
theorem CompleteAt.children_of_entries (ih : CompleteAt fuel) {t : Located}
    {used : List Located} {es : List Entry} {items : List Pattern} {arity : Arity}
    (ht : t.token = .openParen) (h : ReadsEntries used es)
    (hclose : closeList es = .ok (items, arity)) (hfuel : 4 * used.length + 2 ≤ fuel)
    (rest : List Located) :
    parseChildren (fuel + 1) (t :: (used ++ rest)) = .ok ((items, arity), rest) := by
  have hinside : parseInside fuel (used ++ rest) = .ok (es, rest) := by
    obtain ⟨first, us, rfl, hfirst⟩ := h.head
    have hnone : eat? .closeParen (first :: us ++ rest) = none :=
      eat?_cons_of_ne (by intro heq; simp [heq, startsPattern, startsPrimary] at hfirst) _
    rw [parseInside, hnone]
    exact ih.entries h hfuel rest
  rw [parseChildren_succ]
  simp [bind, Except.bind, expect, eat?, ht, hinside, hclose]

theorem CompleteAt.children_succ (ih : CompleteAt fuel) {used : List Located}
    {items : List Pattern} {arity : Arity} (h : DenotesChildren (words used) items arity)
    (hfuel : 4 * used.length + 3 ≤ fuel + 1) (rest : List Located) :
    parseChildren (fuel + 1) (used ++ rest) = .ok ((items, arity), rest) := by
  obtain ⟨us, hus⟩ := h.head
  obtain ⟨t, behind, rfl, ht, rfl⟩ := List.map_eq_cons_iff.1 hus
  generalize hts : words (t :: behind) = ts at h
  simp only [List.length_cons] at hfuel
  cases h with
  | none =>
      obtain ⟨close, rfl, hclose⟩ := List.map_eq_singleton_iff.1 (List.cons.inj hts).2
      rw [parseChildren_succ]
      simp [bind, Except.bind, expect, eat?, ht, hclose, parseInside, closeList]
  | anything =>
      obtain ⟨ellipsis, behind, rfl, hellipsis, hbehind⟩ :=
        List.map_eq_cons_iff.1 (List.cons.inj hts).2
      obtain ⟨close, rfl, hclose⟩ := List.map_eq_singleton_iff.1 hbehind
      exact ih.children_of_entries ht (.last (.ellipsis hellipsis) hclose)
        (closeList_eq_ok.2 (.inr ⟨rfl, ellipsis.offset, rfl⟩)) (by simp at hfuel ⊢; omega) rest
  | exact h =>
      obtain ⟨front, back, rfl, rfl, hback⟩ := List.map_eq_append_iff.1 (List.cons.inj hts).2
      obtain ⟨close, rfl, hclose⟩ := List.map_eq_singleton_iff.1 hback
      exact ih.children_of_entries ht (readsEntries_items hclose h)
        (closeList_eq_ok.2 (.inl ⟨rfl, rfl⟩)) (by omega) rest
  | atLeast h =>
      obtain ⟨front, back, rfl, rfl, hback⟩ := List.map_eq_append_iff.1 (List.cons.inj hts).2
      obtain ⟨comma, back, rfl, hcomma, hback⟩ := List.map_eq_cons_iff.1 hback
      obtain ⟨ellipsis, back, rfl, hellipsis, hback⟩ := List.map_eq_cons_iff.1 hback
      obtain ⟨close, rfl, hclose⟩ := List.map_eq_singleton_iff.1 hback
      exact ih.children_of_entries ht (readsEntries_items_ellipsis hcomma hellipsis hclose h)
        (closeList_eq_ok.2 (.inr ⟨rfl, ellipsis.offset, rfl⟩)) (by omega) rest

/-- Members in brackets are read up to the closing bracket. -/
theorem CompleteAt.bracketed (ih : CompleteAt fuel) {used : List Located} {ts : List Token}
    {close : Token} {ps : List Pattern} (hused : words used = ts ++ [close])
    (h : DenotesEach .bar ts ps) (hparen : close ≠ .openParen) (hbar : close ≠ .bar)
    (hfuel : 4 * used.length ≤ fuel + 2) (expected : Expectation) (rest : List Located) :
    ∃ tail, parseMembers fuel (used ++ rest) = .ok (ps, tail) ∧
      expect close expected tail = .ok rest := by
  obtain ⟨front, back, rfl, rfl, hback⟩ := List.map_eq_append_iff.1 hused
  obtain ⟨t, rfl, ht⟩ := List.map_eq_singleton_iff.1 hback
  simp only [List.length_append, List.length_cons, List.length_nil] at hfuel
  refine ⟨t :: rest, ?_, expect_eq_ok.2 ⟨t, rfl, ht⟩⟩
  rw [List.append_assoc]
  exact ih.members h (by omega) (t :: rest) (by simpa [peek, ht] using hparen)
    (by simpa [peek, ht] using hbar)

theorem CompleteAt.parenthesized (ih : CompleteAt fuel) {used : List Located} {ts : List Token}
    {offset : Nat} {ps : List Pattern} (hused : words used = ts ++ [.closeParen])
    (h : DenotesEach .bar ts ps) (hfuel : 4 * used.length ≤ fuel + 2) (rest : List Located) :
    parsePrimary (fuel + 1) (⟨.openParen, offset⟩ :: used ++ rest) = .ok (grouped ps, rest) := by
  obtain ⟨tail, hmembers, hclose⟩ :=
    ih.bracketed hused h (by simp) (by simp) hfuel .barOrParen rest
  simp only [List.cons_append, parsePrimary, advance, reduceCtorEq, if_false, hmembers,
    bind, Except.bind, hclose]
  rfl

theorem CompleteAt.primary_succ (ih : CompleteAt fuel) {used : List Located} {p : Pattern}
    (h : DenotesPrimary (words used) p) (hfuel : 4 * used.length ≤ fuel + 1)
    (rest : List Located) (hrest : (peek rest).token ≠ .openParen) :
    parsePrimary (fuel + 1) (used ++ rest) = .ok (p, rest) := by
  obtain ⟨first, us, hus, -⟩ := h.head
  obtain ⟨⟨token, offset⟩, behind, rfl, -, -⟩ := List.map_eq_cons_iff.1 hus
  generalize hts : words (⟨token, offset⟩ :: behind) = ts at h
  simp only [words_cons] at hts
  simp only [List.length_cons] at hfuel
  cases h with
  | children h =>
      obtain ⟨rfl, rfl⟩ := List.cons.inj hts
      obtain ⟨us, hus⟩ := h.head
      have hopen := peek_of_words hus rest
      have hchildren := ih.children h (by omega) rest
      simp only [List.cons_append, parsePrimary, advance, reduceCtorEq, if_false, hopen, if_true,
        hchildren]
      rfl
  | node k h =>
      obtain ⟨rfl, rfl⟩ := List.cons.inj hts
      obtain ⟨us, hus⟩ := h.head
      have hopen := peek_of_words hus rest
      have hchildren := ih.children h (by omega) rest
      simp only [List.cons_append, parsePrimary, advance, reduceCtorEq, if_false, hopen, if_true,
        hchildren]
      rfl
  | braced h =>
      obtain ⟨rfl, hbehind⟩ := List.cons.inj hts
      obtain ⟨t, us, rfl, ht⟩ := h.head
      have hnext : (peek (behind ++ rest)).token ≠ .closeBrace := by
        rw [peek_of_words hbehind]
        rintro rfl
        simp [startsPattern, startsPrimary] at ht
      obtain ⟨tail, hmembers, hclose⟩ :=
        ih.bracketed hbehind h (by simp) (by simp) (by omega) .barOrBrace rest
      simp only [List.cons_append, parsePrimary, advance, reduceCtorEq, if_false, hnext, hmembers,
        bind, Except.bind, hclose]
      rfl
  | group h =>
      obtain ⟨rfl, hbehind⟩ := List.cons.inj hts
      exact ih.parenthesized hbehind h (by omega) rest
  | choice h =>
      obtain ⟨rfl, hbehind⟩ := List.cons.inj hts
      exact ih.parenthesized hbehind h (by omega) rest
  | _ =>
      -- The remaining forms are a single token.
      obtain ⟨rfl, hbehind⟩ := List.cons.inj hts
      obtain rfl := List.map_eq_nil_iff.1 hbehind
      simp [parsePrimary, advance, hrest]

theorem completeAt (fuel : Nat) : CompleteAt fuel := by
  -- The constants in `CompleteAt` are levels.  A call before a token is taken goes to a lower
  -- level, and a call behind a token, which frees four units of fuel, may go to any.
  induction fuel with
  | zero =>
      refine ⟨?_, ?_, ?_, ?_, ?_⟩
      · intro used p _ hfuel
        omega
      · intro used p h hfuel
        obtain rfl : used = [] := List.length_eq_zero_iff.1 (by omega)
        cases h
      · intro used ps _ hfuel
        omega
      · intro used items arity _ hfuel
        omega
      · intro used es _ hfuel
        omega
  | succ fuel ih =>
      exact ⟨ih.pattern_succ, ih.primary_succ, ih.members_succ, ih.children_succ, ih.entries_succ⟩

end Pattern

end TreeLint

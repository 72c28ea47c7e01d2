import TreeLint.Proofs.Pattern.Reading
import TreeLint.Proofs.Pattern.Soundness

/-!
# The parsers read token by token

Each parser takes its tokens as the reader of single tokens does.  Where a parser
succeeds, the reader gets past the tokens that were taken; where it fails, the reader is
blocked at a token, unless the fault lies in the place of an ellipsis.
-/

namespace TreeLint

namespace Pattern

def Cause.blamesToken : Cause → Bool
  | .unexpectedToken _ _ => true
  | .unexpectedEnd _ => true
  | .trailingInput => true
  | .ellipsisOutsideChildren => true
  | .unexpectedCharacter _ => false
  | .unterminatedString => false
  | .invalidEscape _ => false
  | .invalidNumber _ => false
  | .ellipsisNotLast => false
  | .multipleEllipsis => false
  | .emptyAlternation => false

open Reading

/-- Reading the tokens in front of `rest` leads from one reading to the other. -/
def Passes (r : Reading) (tokens : List Located) (s : Reading) (rest : List Located) : Prop :=
  ∃ used, tokens = used ++ rest ∧ Reads r (words used) s

/-- Reading comes to a token that cannot come next, which a fault that blames a token shows. -/
def Blocks (r : Reading) (tokens : List Located) (f : Fault) : Prop :=
  ∃ q t rest, Passes r tokens q (t :: rest) ∧ q.step t.token = none ∧
    (f.cause.blamesToken = true → f.position = t.offset)

/-- Reading is blocked, or there is an ellipsis to blame. -/
def Fails (r : Reading) (tokens : List Located) (f : Fault) : Prop :=
  Blocks r tokens f ∨ (f.cause.blamesToken = false ∧ .ellipsis ∈ words tokens)

/-- A result follows reading: to a reading of the given kind, or to a failure. -/
def Tracks {α : Type} (r : Reading) (tokens : List Located)
    (goal : Reading → List Located → Prop) : Except Fault (α × List Located) → Prop
  | .ok (_, rest) => ∃ q, Passes r tokens q rest ∧ goal q rest
  | .error f => Fails r tokens f

def Reading.Completes (opened : List Bracket) (next : Token) (r : Reading) : Prop :=
  r = ⟨.complete, opened⟩ ∨ (r = ⟨.named, opened⟩ ∧ next ≠ .openParen)

variable {α β : Type} {r s q : Reading} {t : Located} {tokens rest : List Located}
  {opened : List Bracket} {goal goal' : Reading → List Located → Prop}

/-! ## Passing tokens -/

theorem Passes.refl (r : Reading) (tokens : List Located) : Passes r tokens r tokens :=
  ⟨[], rfl, .nil r⟩

theorem Passes.step (h : r.step t.token = some q) : Passes r (t :: rest) q rest :=
  ⟨[t], rfl, .cons h (.nil q)⟩

theorem Passes.trans {tail : List Located} (h : Passes r tokens q rest)
    (h' : Passes q rest s tail) : Passes r tokens s tail := by
  obtain ⟨used, rfl, hused⟩ := h
  obtain ⟨used', rfl, hused'⟩ := h'
  refine ⟨used ++ used', by rw [List.append_assoc], ?_⟩
  rw [words_append]
  exact reads_append.2 ⟨q, hused, hused'⟩

theorem Passes.length_le (h : Passes r tokens q rest) : rest.length ≤ tokens.length := by
  obtain ⟨used, rfl, -⟩ := h
  simp

theorem Passes.mem_words (h : Passes r tokens q rest) {token : Token}
    (hmem : token ∈ words rest) : token ∈ words tokens := by
  obtain ⟨used, rfl, -⟩ := h
  rw [words_append]
  exact List.mem_append_right _ hmem

/-- Only the first token tells two readings apart. -/
theorem Passes.congr_start (h : Passes r tokens q rest) (hne : q ≠ r)
    (hstep : r.step (peek tokens).token = s.step (peek tokens).token) :
    Passes s tokens q rest := by
  obtain ⟨used, rfl, hused⟩ := h
  cases used with
  | nil => exact absurd (hused.unique (.nil r)) hne
  | cons t used =>
      obtain ⟨q', hfirst, hrest⟩ := reads_cons.1 hused
      exact ⟨t :: used, rfl, .cons (hstep.symm.trans hfirst) hrest⟩

theorem Passes.stop_mem (h : Passes r tokens q rest) (hq : q.phase ≠ .ended)
    (hstop : .stop ∈ words tokens) : .stop ∈ words rest := by
  obtain ⟨used, rfl, hused⟩ := h
  rw [words_append, List.mem_append] at hstop
  exact hstop.resolve_left (hused.stop_not_mem hq)

theorem exists_cons_of_stop (h : .stop ∈ words tokens) : ∃ t rest, tokens = t :: rest := by
  cases tokens with
  | nil => simp at h
  | cons t rest => exact ⟨t, rest, rfl⟩

theorem peek_ne_of_eat? {token : Token} (hstop : .stop ∈ words tokens)
    (h : eat? token tokens = none) : (peek tokens).token ≠ token := by
  intro hnext
  obtain ⟨t, rest, rfl⟩ := exists_cons_of_stop hstop
  rw [eat?_eq_some.2 ⟨t, rfl, hnext⟩] at h
  cases h

theorem Reading.Completes.step_eq {next : Token} (h : r.Completes opened next) :
    r.step next = Reading.step ⟨.complete, opened⟩ next := by
  rcases h with rfl | ⟨rfl, hne⟩
  · rfl
  · exact step_named hne

theorem Reading.Completes.phase_ne {next : Token} (h : r.Completes opened next) :
    r.phase ≠ .ended ∧ r.phase ≠ .pattern := by
  rcases h with rfl | ⟨rfl, -⟩ <;> simp

/-! ## Results that follow reading -/

theorem Fails.prepend {f : Fault} (h : Passes r tokens q rest) (hf : Fails q rest f) :
    Fails r tokens f := by
  rcases hf with ⟨q', t, tail, hpass, hnone, hplace⟩ | ⟨hcause, hmem⟩
  · exact .inl ⟨q', t, tail, h.trans hpass, hnone, hplace⟩
  · exact .inr ⟨hcause, h.mem_words hmem⟩

theorem Tracks.prepend {x : Except Fault (α × List Located)} (h : Passes r tokens q rest)
    (hx : Tracks q rest goal x) : Tracks r tokens goal x := by
  match x, hx with
  | .ok (_, _), ⟨q', hpass, hgoal⟩ => exact ⟨q', h.trans hpass, hgoal⟩
  | .error _, hfails => exact Fails.prepend h hfails

theorem Tracks.bind {x : Except Fault (α × List Located)}
    {f : α × List Located → Except Fault (β × List Located)} (hx : Tracks r tokens goal x)
    (hf : ∀ a q rest, x = .ok (a, rest) → Passes r tokens q rest → goal q rest →
      Tracks q rest goal' (f (a, rest))) :
    Tracks r tokens goal' (x >>= f) := by
  match x, hx with
  | .ok (a, rest), ⟨q, hpass, hgoal⟩ => exact (hf a q rest rfl hpass hgoal).prepend hpass
  | .error _, hfails => exact hfails

/-- Two readings that treat the next token alike are followed alike. -/
theorem Tracks.congr_start {x : Except Fault (α × List Located)} (hx : Tracks r tokens goal x)
    (hne : ∀ q rest, goal q rest → q ≠ r)
    (hstep : r.step (peek tokens).token = s.step (peek tokens).token) :
    Tracks s tokens goal x := by
  match x, hx with
  | .ok (_, _), ⟨q, hpass, hgoal⟩ =>
      exact ⟨q, hpass.congr_start (hne q _ hgoal) hstep, hgoal⟩
  | .error _, .inr hellipsis => exact .inr hellipsis
  | .error _, .inl ⟨q, t, rest, hpass, hnone, hplace⟩ =>
      -- Back in the reading it started from, the reader may be blocked at the first token.
      by_cases heq : q = r
      · obtain ⟨used, rfl, hused⟩ := hpass
        subst heq
        cases used with
        | nil => exact .inl ⟨s, t, rest, .refl s _, hstep.symm.trans hnone, hplace⟩
        | cons u used =>
            obtain ⟨q', hfirst, hrest⟩ := reads_cons.1 hused
            exact .inl ⟨q, t, rest, ⟨u :: used, rfl, .cons (hstep.symm.trans hfirst) hrest⟩, hnone,
              hplace⟩
      · exact .inl ⟨q, t, rest, hpass.congr_start heq hstep, hnone, hplace⟩

theorem Tracks.ok {a : α} (h : goal r tokens) : Tracks r tokens goal (.ok (a, tokens)) :=
  ⟨r, .refl r tokens, h⟩

theorem unexpected_position (found : Located) (expected : Expectation) :
    (unexpected found expected).position = found.offset := by
  unfold unexpected
  split <;> rfl

theorem Tracks.blocked {f : Fault} (hnone : r.step t.token = none)
    (hplace : f.position = t.offset) :
    Tracks r (t :: rest) goal (.error f : Except Fault (α × List Located)) :=
  .inl ⟨r, t, rest, .refl r _, hnone, fun _ => hplace⟩

/-- A token that has to come next blocks reading if it is another one. -/
theorem Tracks.expect {token : Token} {expected : Expectation}
    {f : List Located → Except Fault (α × List Located)} (hstop : .stop ∈ words tokens)
    (hother : (peek tokens).token ≠ token → r.step (peek tokens).token = none)
    (hf : ∀ t rest, tokens = t :: rest → t.token = token → Tracks r tokens goal (f rest)) :
    Tracks r tokens goal (Pattern.expect token expected tokens >>= f) := by
  obtain ⟨t, rest, rfl⟩ := exists_cons_of_stop hstop
  by_cases ht : t.token = token
  · have heat : Pattern.expect token expected (t :: rest) = .ok rest :=
      expect_eq_ok.2 ⟨t, rfl, ht⟩
    rw [heat]
    exact hf t rest rfl ht
  · have heat : Pattern.expect token expected (t :: rest) = .error (unexpected t expected) := by
      rw [Pattern.expect, eat?_cons_of_ne ht]
      rfl
    rw [heat]
    exact .blocked (hother ht) (unexpected_position t expected)

/-! ## The parsers -/

structure Supplied (level fuel : Nat) (tokens : List Located) : Prop where
  stop : .stop ∈ words tokens
  enough : 4 * tokens.length + level ≤ fuel

theorem Supplied.pass {level level' fuel : Nat} (h : Supplied level (fuel + 1) tokens)
    (hpass : Passes r tokens q rest) (hphase : q.phase ≠ .ended)
    (hlevel : 4 * rest.length + level' ≤ 4 * tokens.length + level - 1) :
    Supplied level' fuel rest := by
  have hfuel := h.enough
  exact ⟨hpass.stop_mem hphase h.stop, by omega⟩

theorem Supplied.tail {level level' fuel : Nat} (h : Supplied level (fuel + 1) (t :: rest))
    (hpass : Passes r (t :: rest) q rest) (hphase : q.phase ≠ .ended)
    (hlevel : level' ≤ level + 3) : Supplied level' fuel rest := by
  refine h.pass hpass hphase ?_
  rw [List.length_cons]
  omega

structure FollowsAt (fuel : Nat) : Prop where
  pattern {tokens : List Located} (opened : List Bracket) : Supplied 1 fuel tokens →
    Tracks ⟨.pattern, opened⟩ tokens (fun q rest => q.Completes opened (peek rest).token)
      (parsePattern fuel tokens)
  primary {tokens : List Located} (opened : List Bracket) : Supplied 0 fuel tokens →
    (peek tokens).token ≠ .bang → (peek tokens).token ≠ .caret →
      Tracks ⟨.pattern, opened⟩ tokens (fun q rest => q.Completes opened (peek rest).token)
        (parsePrimary fuel tokens)
  members {tokens : List Located} {b : Bracket} (outer : List Bracket) :
    b.separator = .bar → Supplied 2 fuel tokens →
      Tracks ⟨.pattern, b :: outer⟩ tokens
        (fun q rest => q.Completes (b :: outer) (peek rest).token ∧ (peek rest).token ≠ .bar)
        (parseMembers fuel tokens)
  children {tokens : List Located} (opened : List Bracket) : Supplied 3 fuel tokens →
    (peek tokens).token = .openParen →
      Tracks ⟨.named, opened⟩ tokens (fun q _ => q = ⟨.complete, opened⟩)
        (parseChildren fuel tokens)
  entries {tokens : List Located} (opened : List Bracket) : Supplied 2 fuel tokens →
    Tracks ⟨.entry, .children :: opened⟩ tokens (fun q _ => q = ⟨.complete, opened⟩)
      (parseEntries fuel tokens)

variable {fuel : Nat}

theorem FollowsAt.operator (ih : FollowsAt fuel) {f : Pattern → Pattern}
    (h : Supplied 1 (fuel + 1) (t :: rest))
    (hstep : Reading.step ⟨.pattern, opened⟩ t.token = some ⟨.pattern, opened⟩) :
    Tracks ⟨.pattern, opened⟩ (t :: rest) (fun q rest => q.Completes opened (peek rest).token)
      (parsePattern fuel rest >>= fun r => .ok (f r.1, r.2)) := by
  have hpass : Passes ⟨.pattern, opened⟩ (t :: rest) ⟨.pattern, opened⟩ rest := .step hstep
  refine .prepend hpass (.bind (ih.pattern opened ?_) ?_)
  · exact h.tail hpass (by simp) (by omega)
  · intro p q tail _ _ hq
    exact .ok hq

theorem FollowsAt.pattern_succ (ih : FollowsAt fuel) (opened : List Bracket)
    (h : Supplied 1 (fuel + 1) tokens) :
    Tracks ⟨.pattern, opened⟩ tokens (fun q rest => q.Completes opened (peek rest).token)
      (parsePattern (fuel + 1) tokens) := by
  rw [parsePattern]
  split
  · rename_i behind hbang
    obtain ⟨t, rfl, ht⟩ := eat?_eq_some.1 hbang
    exact ih.operator h (by rw [ht]; rfl)
  · rename_i hbang
    split
    · rename_i behind hcaret
      obtain ⟨t, rfl, ht⟩ := eat?_eq_some.1 hcaret
      exact ih.operator h (by rw [ht]; rfl)
    · rename_i hcaret
      have hfuel := h.enough
      exact ih.primary opened ⟨h.stop, by omega⟩ (peek_ne_of_eat? h.stop hbang)
        (peek_ne_of_eat? h.stop hcaret)

theorem FollowsAt.members_succ (ih : FollowsAt fuel) {b : Bracket} (outer : List Bracket)
    (hb : b.separator = .bar) (h : Supplied 2 (fuel + 1) tokens) :
    Tracks ⟨.pattern, b :: outer⟩ tokens
      (fun q rest => q.Completes (b :: outer) (peek rest).token ∧ (peek rest).token ≠ .bar)
      (parseMembers (fuel + 1) tokens) := by
  have hfuel := h.enough
  rw [parseMembers]
  refine .bind (ih.pattern (b :: outer) ⟨h.stop, by omega⟩) ?_
  intro first q rest _ hpass hq
  have hstop := hpass.stop_mem hq.phase_ne.1 h.stop
  dsimp only
  split
  · rename_i behind hbar
    obtain ⟨t, rfl, ht⟩ := eat?_eq_some.1 hbar
    have hphase : b.memberPhase = .pattern := by
      cases b with
      | braces => rfl
      | group => rfl
      | children => cases hb
    have hstep := hq.step_eq
    rw [peek, ht, ← hb, step_separator, hphase, hb, ← ht] at hstep
    have hmember : Passes q (t :: behind) ⟨.pattern, b :: outer⟩ behind := .step hstep
    have hlength := hpass.length_le
    refine .prepend hmember (.bind (ih.members outer hb ?_) ?_)
    · exact h.pass (hpass.trans hmember) (by simp) (by rw [List.length_cons] at hlength; omega)
    · intro others q' tail _ _ hq'
      exact .ok hq'
  · rename_i hbar
    exact .ok ⟨hq, peek_ne_of_eat? hstop hbar⟩

/-! ### Child lists -/

theorem FollowsAt.entry (ih : FollowsAt fuel) (opened : List Bracket)
    (h : Supplied 1 fuel tokens) :
    Tracks ⟨.entry, .children :: opened⟩ tokens
      (fun q rest => q.Completes (.children :: opened) (peek rest).token)
      (parseEntry fuel tokens) := by
  unfold parseEntry
  split
  · rename_i behind hellipsis
    obtain ⟨t, rfl, ht⟩ := eat?_eq_some.1 hellipsis
    refine .prepend (.step ?_) (.ok (.inl rfl))
    rw [ht]
    rfl
  · rename_i hellipsis
    have hnext := peek_ne_of_eat? h.stop hellipsis
    have hpattern : Tracks ⟨.pattern, .children :: opened⟩ tokens
        (fun q rest => q.Completes (.children :: opened) (peek rest).token)
        (parsePattern fuel tokens >>= fun r => .ok (Entry.item r.1, r.2)) := by
      refine .bind (ih.pattern _ h) ?_
      intro p q rest _ _ hq
      exact .ok hq
    have hmap : (parsePattern fuel tokens).map (fun r => (Entry.item r.1, r.2)) =
        parsePattern fuel tokens >>= fun r => .ok (Entry.item r.1, r.2) := by
      cases parsePattern fuel tokens <;> rfl
    rw [hmap]
    refine hpattern.congr_start ?_ (step_entry hnext).symm
    rintro q rest hq rfl
    exact hq.phase_ne.2 rfl

theorem FollowsAt.entries_succ (ih : FollowsAt fuel) (opened : List Bracket)
    (h : Supplied 2 (fuel + 1) tokens) :
    Tracks ⟨.entry, .children :: opened⟩ tokens (fun q _ => q = ⟨.complete, opened⟩)
      (parseEntries (fuel + 1) tokens) := by
  have hfuel := h.enough
  rw [parseEntries_succ]
  refine .bind (ih.entry opened ⟨h.stop, by omega⟩) ?_
  intro e q rest _ hpass hq
  have hstop := hpass.stop_mem hq.phase_ne.1 h.stop
  have hlength := hpass.length_le
  dsimp only
  split
  · rename_i behind hclose
    obtain ⟨t, rfl, ht⟩ := eat?_eq_some.1 hclose
    refine .prepend (.step ?_) (.ok rfl)
    rw [show q.step t.token = _ from hq.step_eq, peek, ht]
    rfl
  · rename_i hclose
    have hnext := peek_ne_of_eat? hstop hclose
    refine .expect hstop ?_ ?_
    · intro hcomma
      rw [hq.step_eq]
      exact step_complete_eq_none hcomma hnext
    · rintro t behind rfl ht
      have hstep : q.step t.token = some ⟨.entry, .children :: opened⟩ := by
        rw [show q.step t.token = _ from hq.step_eq, peek, ht]
        rfl
      have hentry : Passes q (t :: behind) ⟨.entry, .children :: opened⟩ behind := .step hstep
      refine .prepend hentry (.bind (ih.entries opened ?_) ?_)
      · exact h.pass (hpass.trans hentry) (by simp) (by rw [List.length_cons] at hlength; omega)
      · intro others q' tail _ _ hq'
        exact .ok hq'

/-- A child list that does not close has an ellipsis in a wrong place. -/
theorem closeList_eq_error {entries : List Entry} {f : Fault} (h : closeList entries = .error f) :
    (f.cause = .ellipsisNotLast ∨ f.cause = .multipleEllipsis) ∧
      .ellipsis f.position ∈ entries := by
  have hmem : ∀ offset ∈ entries.filterMap Entry.ellipsis?,
      Entry.ellipsis offset ∈ entries := by
    intro offset hoffset
    obtain ⟨e, he, heq⟩ := List.mem_filterMap.1 hoffset
    cases e with
    | item p => cases heq
    | ellipsis o =>
        cases heq
        exact he
  simp only [closeList] at h
  split at h
  · cases h
  · rename_i offset hone
    split at h
    · cases h
    · cases h
      exact ⟨.inl rfl, hmem offset (by simp [hone])⟩
  · rename_i first second others hmany
    cases h
    exact ⟨.inr rfl, hmem second (by simp [hmany])⟩

theorem ReadsEntry.ellipsis_mem {used : List Located} {offset : Nat}
    (h : ReadsEntry used (.ellipsis offset)) :
    ∃ t ∈ used, t.token = .ellipsis ∧ t.offset = offset := by
  cases h with
  | ellipsis ht => exact ⟨_, List.mem_cons_self, ht, rfl⟩

theorem ReadsEntries.ellipsis_mem {used : List Located} {entries : List Entry}
    (h : ReadsEntries used entries) {offset : Nat} (hmem : .ellipsis offset ∈ entries) :
    ∃ t ∈ used, t.token = .ellipsis ∧ t.offset = offset := by
  induction h with
  | last he _ =>
      rw [← List.mem_singleton.1 hmem] at he
      obtain ⟨t, ht, hplace⟩ := he.ellipsis_mem
      exact ⟨t, List.mem_append_left _ ht, hplace⟩
  | more he _ _ ih =>
      rcases List.mem_cons.1 hmem with heq | hmem
      · rw [← heq] at he
        obtain ⟨t, ht, hplace⟩ := he.ellipsis_mem
        exact ⟨t, List.mem_append_left _ ht, hplace⟩
      · obtain ⟨t, ht, hplace⟩ := ih hmem
        exact ⟨t, List.mem_append_right _ (List.mem_cons_of_mem _ ht), hplace⟩

theorem ellipsis_mem_of_parseInside {entries : List Entry}
    (h : parseInside fuel tokens = .ok (entries, rest)) {offset : Nat}
    (hmem : .ellipsis offset ∈ entries) :
    ∃ t ∈ tokens, t.token = .ellipsis ∧ t.offset = offset := by
  unfold parseInside at h
  split at h
  · cases h
    simp at hmem
  · obtain ⟨used, rfl, -, hreads⟩ := (soundAt fuel).entries h
    obtain ⟨t, ht, hplace⟩ := hreads.ellipsis_mem hmem
    exact ⟨t, List.mem_append_left _ ht, hplace⟩

theorem FollowsAt.inside (ih : FollowsAt fuel) (opened : List Bracket)
    (h : Supplied 2 fuel tokens) :
    Tracks ⟨.firstEntry, .children :: opened⟩ tokens (fun q _ => q = ⟨.complete, opened⟩)
      (parseInside fuel tokens) := by
  unfold parseInside
  split
  · rename_i behind hclose
    obtain ⟨t, rfl, ht⟩ := eat?_eq_some.1 hclose
    refine .prepend (.step ?_) (.ok rfl)
    rw [ht]
    rfl
  · rename_i hclose
    have hnext := peek_ne_of_eat? h.stop hclose
    refine (ih.entries opened h).congr_start ?_ (step_firstEntry hnext).symm
    rintro q rest rfl
    simp

theorem FollowsAt.children_succ (ih : FollowsAt fuel) (opened : List Bracket)
    (h : Supplied 3 (fuel + 1) tokens) (hopen : (peek tokens).token = .openParen) :
    Tracks ⟨.named, opened⟩ tokens (fun q _ => q = ⟨.complete, opened⟩)
      (parseChildren (fuel + 1) tokens) := by
  rw [parseChildren_succ]
  refine .expect h.stop (absurd hopen) ?_
  rintro t rest rfl ht
  have hfirst : Passes ⟨.named, opened⟩ (t :: rest) ⟨.firstEntry, .children :: opened⟩ rest :=
    .step (by rw [ht]; rfl)
  have hsupplied : Supplied 2 fuel rest := h.tail hfirst (by simp) (by omega)
  have htracks := ih.inside opened hsupplied
  refine .prepend hfirst ?_
  cases hinside : parseInside fuel rest with
  | error f =>
      rw [hinside] at htracks
      exact htracks
  | ok r =>
      rw [hinside] at htracks
      -- A misplaced ellipsis shows only when the list is closed, behind the tokens it is among.
      change Tracks _ rest _ (closeList r.1 >>= fun children => .ok (children, r.2))
      cases hclose : closeList r.1 with
      | ok children => exact htracks
      | error f =>
          obtain ⟨hcause, hmem⟩ := closeList_eq_error hclose
          obtain ⟨t, ht, htoken, -⟩ := ellipsis_mem_of_parseInside hinside hmem
          refine .inr ⟨?_, List.mem_map.2 ⟨t, ht, htoken⟩⟩
          rcases hcause with hcause | hcause <;> rw [hcause] <;> rfl

/-! ### Patterns without an operator -/

theorem FollowsAt.bracketed (ih : FollowsAt fuel) {b : Bracket} (outer : List Bracket)
    (hb : b.separator = .bar) (h : Supplied 2 fuel tokens) (expected : Expectation)
    (f : List Pattern → Pattern) :
    Tracks ⟨.pattern, b :: outer⟩ tokens (fun q rest => q.Completes outer (peek rest).token)
      (parseMembers fuel tokens >>= fun r =>
        Pattern.expect b.close expected r.2 >>= fun rest => .ok (f r.1, rest)) := by
  refine .bind (ih.members outer hb h) ?_
  rintro ps q rest - hpass ⟨hq, hbar⟩
  have hstop := hpass.stop_mem hq.phase_ne.1 h.stop
  refine .expect hstop ?_ ?_
  · intro hclose
    rw [hq.step_eq]
    exact step_complete_eq_none (by rwa [hb]) hclose
  · rintro t behind rfl ht
    refine .prepend (.step ?_) (.ok (.inl rfl))
    rw [show q.step t.token = _ from hq.step_eq, peek, ht]
    exact step_close b outer

/-- A name or `_`, with a child list if one comes next. -/
theorem FollowsAt.named (ih : FollowsAt fuel) (opened : List Bracket)
    (h : Supplied 0 (fuel + 1) (t :: rest))
    (hstep : Reading.step ⟨.pattern, opened⟩ t.token = some ⟨.named, opened⟩) (p : Pattern)
    (f : List Pattern × Arity → Pattern) :
    Tracks ⟨.pattern, opened⟩ (t :: rest) (fun q rest => q.Completes opened (peek rest).token)
      (if (peek rest).token = .openParen then
        parseChildren fuel rest >>= fun r => .ok (f r.1, r.2)
      else .ok (p, rest)) := by
  have hpass : Passes ⟨.pattern, opened⟩ (t :: rest) ⟨.named, opened⟩ rest := .step hstep
  refine .prepend hpass ?_
  split
  · rename_i hopen
    refine .bind (ih.children opened (h.tail hpass (by simp) (by omega)) hopen) ?_
    rintro c q tail - - rfl
    exact .ok (.inl rfl)
  · rename_i hopen
    exact .ok (.inr ⟨rfl, hopen⟩)

theorem FollowsAt.primary_succ (ih : FollowsAt fuel) (opened : List Bracket)
    (h : Supplied 0 (fuel + 1) tokens) (hbang : (peek tokens).token ≠ .bang)
    (hcaret : (peek tokens).token ≠ .caret) :
    Tracks ⟨.pattern, opened⟩ tokens (fun q rest => q.Completes opened (peek rest).token)
      (parsePrimary (fuel + 1) tokens) := by
  obtain ⟨⟨token, offset⟩, rest, rfl⟩ := exists_cons_of_stop h.stop
  rw [parsePrimary]
  cases token with
  | underscore => exact ih.named opened h rfl .any fun c => .children c.1 c.2
  | name k => exact ih.named opened h rfl (.kind k) fun c => .node k c.1 c.2
  | string s => exact .prepend (.step rfl) (.ok (.inl rfl))
  | integer n => exact .prepend (.step rfl) (.ok (.inl rfl))
  | float x => exact .prepend (.step rfl) (.ok (.inl rfl))
  | true => exact .prepend (.step rfl) (.ok (.inl rfl))
  | false => exact .prepend (.step rfl) (.ok (.inl rfl))
  | nil => exact .prepend (.step rfl) (.ok (.inl rfl))
  | openBrace =>
      have hpass : Passes ⟨.pattern, opened⟩ (⟨.openBrace, offset⟩ :: rest)
          ⟨.pattern, .braces :: opened⟩ rest := .step rfl
      have hsupplied : Supplied 2 fuel rest := h.tail hpass (by simp) (by omega)
      refine .prepend hpass ?_
      simp only [advance, reduceCtorEq, if_false]
      split
      · rename_i hempty
        obtain ⟨t, tail, rfl⟩ := exists_cons_of_stop hsupplied.stop
        have hnone : Reading.step ⟨.pattern, .braces :: opened⟩ t.token = none := by
          rw [show t.token = .closeBrace from hempty]
          rfl
        exact .inl ⟨_, t, tail, .refl _ _, hnone, by simp [Cause.blamesToken]⟩
      · exact ih.bracketed opened rfl hsupplied .barOrBrace .oneOf
  | openParen =>
      have hpass : Passes ⟨.pattern, opened⟩ (⟨.openParen, offset⟩ :: rest)
          ⟨.pattern, .group :: opened⟩ rest := .step rfl
      have hsupplied : Supplied 2 fuel rest := h.tail hpass (by simp) (by omega)
      refine .prepend hpass ?_
      exact ih.bracketed opened rfl hsupplied .barOrParen grouped
  | bang => exact absurd rfl hbang
  | caret => exact absurd rfl hcaret
  | _ => exact .blocked rfl rfl

theorem followsAt (fuel : Nat) : FollowsAt fuel := by
  induction fuel with
  | zero =>
      have hempty : ∀ {level : Nat} {tokens : List Located}, ¬ Supplied level 0 tokens := by
        intro level tokens h
        obtain ⟨t, rest, rfl⟩ := exists_cons_of_stop h.stop
        have hfuel := h.enough
        simp at hfuel
      refine ⟨?_, ?_, ?_, ?_, ?_⟩
      · exact fun _ h => absurd h hempty
      · exact fun _ h => absurd h hempty
      · exact fun _ _ h => absurd h hempty
      · exact fun _ h => absurd h hempty
      · exact fun _ h => absurd h hempty
  | succ fuel ih =>
      exact ⟨ih.pattern_succ, ih.primary_succ, ih.members_succ, ih.children_succ, ih.entries_succ⟩

end Pattern

end TreeLint

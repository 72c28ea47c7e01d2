import TreeLint.Proofs.Pattern.Grammar

/-!
# Reading a pattern token by token

A reader that sees one token at a time.  It remembers the open brackets and what may come
next, and lets `...` stand for any entry of a child list.  Whatever it has read so far can
be completed: by a pattern, if one has to come, and the closing brackets.
-/

namespace TreeLint

namespace Pattern

inductive Bracket where
  | braces
  | group
  | children
deriving DecidableEq, Repr

namespace Bracket

def separator : Bracket → Token
  | .braces => .bar
  | .group => .bar
  | .children => .comma

def close : Bracket → Token
  | .braces => .closeBrace
  | .group => .closeParen
  | .children => .closeParen

end Bracket

inductive Phase where
  /-- A pattern. -/
  | pattern
  /-- An entry of a child list. -/
  | entry
  /-- The first entry of a child list, or its end. -/
  | firstEntry
  /-- A child list for the name that was just read, or what may follow a pattern. -/
  | named
  /-- What may follow a pattern. -/
  | complete
  /-- Nothing, since the end was read. -/
  | ended
deriving DecidableEq, Repr

def Bracket.memberPhase : Bracket → Phase
  | .braces => .pattern
  | .group => .pattern
  | .children => .entry

/-- What may come next, and the open brackets, the innermost one first. -/
structure Reading where
  phase : Phase
  opened : List Bracket
deriving DecidableEq, Repr

namespace Reading

def start : Reading :=
  ⟨.pattern, []⟩

def begin? (opened : List Bracket) : Token → Option Reading
  | .bang | .caret => some ⟨.pattern, opened⟩
  | .underscore | .name _ => some ⟨.named, opened⟩
  | .string _ | .integer _ | .float _ | .true | .false | .nil => some ⟨.complete, opened⟩
  | .openBrace => some ⟨.pattern, .braces :: opened⟩
  | .openParen => some ⟨.pattern, .group :: opened⟩
  | .ellipsis | .closeParen | .closeBrace | .bar | .comma | .stop => none

def follow? (opened : List Bracket) (t : Token) : Option Reading :=
  match opened with
  | [] => if t = .stop then some ⟨.ended, []⟩ else none
  | b :: outer =>
      if t = b.separator then some ⟨b.memberPhase, b :: outer⟩
      else if t = b.close then some ⟨.complete, outer⟩
      else none

def step (r : Reading) (t : Token) : Option Reading :=
  match r.phase with
  | .pattern => begin? r.opened t
  | .entry => if t = .ellipsis then some ⟨.complete, r.opened⟩ else begin? r.opened t
  | .firstEntry =>
      if t = .closeParen then some ⟨.complete, r.opened.tail⟩
      else if t = .ellipsis then some ⟨.complete, r.opened⟩
      else begin? r.opened t
  | .named =>
      if t = .openParen then some ⟨.firstEntry, .children :: r.opened⟩ else follow? r.opened t
  | .complete => follow? r.opened t
  | .ended => none

def Reads (r : Reading) (ts : List Token) (s : Reading) : Prop :=
  ts.foldlM step r = some s

variable {r s q : Reading} {t : Token} {ts us : List Token} {opened : List Bracket}

/-! ## One token -/

theorem step_entry (h : t ≠ .ellipsis) :
    step ⟨.entry, opened⟩ t = step ⟨.pattern, opened⟩ t :=
  if_neg h

theorem step_firstEntry (h : t ≠ .closeParen) :
    step ⟨.firstEntry, opened⟩ t = step ⟨.entry, opened⟩ t :=
  if_neg h

theorem step_named (h : t ≠ .openParen) :
    step ⟨.named, opened⟩ t = step ⟨.complete, opened⟩ t :=
  if_neg h

theorem step_close (b : Bracket) (outer : List Bracket) :
    step ⟨.complete, b :: outer⟩ b.close = some ⟨.complete, outer⟩ := by
  cases b <;> rfl

theorem step_separator (b : Bracket) (outer : List Bracket) :
    step ⟨.complete, b :: outer⟩ b.separator = some ⟨b.memberPhase, b :: outer⟩ :=
  if_pos rfl

theorem step_complete_eq_none {b : Bracket} {outer : List Bracket} (hseparator : t ≠ b.separator)
    (hclose : t ≠ b.close) : step ⟨.complete, b :: outer⟩ t = none := by
  rw [step, follow?, if_neg hseparator, if_neg hclose]

/-- Neither `...` nor an opening parenthesis follows a pattern. -/
theorem ne_of_follow? (h : follow? opened t = some r) : t ≠ .ellipsis ∧ t ≠ .openParen := by
  unfold follow? at h
  split at h
  · split at h
    · simp [*]
    · cases h
  · rename_i b outer
    split at h
    · rename_i heq
      subst heq
      cases b <;> simp [Bracket.separator]
    · split at h
      · rename_i heq
        subst heq
        cases b <;> simp [Bracket.close]
      · cases h

theorem begin?_ended_iff (h : begin? opened t = some s) : s.phase = .ended ↔ t = .stop := by
  cases t <;> cases h <;> simp

theorem follow?_ended_iff (h : follow? opened t = some s) : s.phase = .ended ↔ t = .stop := by
  unfold follow? at h
  split at h
  · split at h <;> cases h
    simp [*]
  · rename_i b outer
    split at h
    · cases h
      cases b <;> simp [*, Bracket.memberPhase, Bracket.separator]
    · split at h <;> cases h
      cases b <;> simp [*, Bracket.close]

/-- The end marker leads to the end, and no other token does. -/
theorem step_ended_iff (h : r.step t = some s) : s.phase = .ended ↔ t = .stop := by
  obtain ⟨phase, opened⟩ := r
  cases phase with
  | pattern => exact begin?_ended_iff h
  | entry =>
      simp only [step] at h
      split at h
      · cases h
        simp [*]
      · exact begin?_ended_iff h
  | firstEntry =>
      simp only [step] at h
      split at h
      · cases h
        simp [*]
      · split at h
        · cases h
          simp [*]
        · exact begin?_ended_iff h
  | named =>
      simp only [step] at h
      split at h
      · cases h
        simp [*]
      · exact follow?_ended_iff h
  | complete => exact follow?_ended_iff h
  | ended => cases h

theorem step_ended (h : r.phase = .ended) : r.step t = none := by
  rw [step, h]

/-! ## Several tokens -/

theorem Reads.nil (r : Reading) : Reads r [] r := rfl

theorem Reads.cons (h : r.step t = some q) (hs : Reads q ts s) : Reads r (t :: ts) s := by
  rw [Reads, List.foldlM_cons, h]
  exact hs

theorem reads_cons : Reads r (t :: ts) s ↔ ∃ q, r.step t = some q ∧ Reads q ts s := by
  rw [Reads, List.foldlM_cons]
  exact Option.bind_eq_some_iff

theorem reads_append : Reads r (ts ++ us) s ↔ ∃ q, Reads r ts q ∧ Reads q us s := by
  rw [Reads, List.foldlM_append]
  exact Option.bind_eq_some_iff

theorem Reads.unique (h : Reads r ts s) (h' : Reads r ts q) : s = q :=
  Option.some.inj (h.symm.trans h')

/-- Nothing that begins with these tokens is read to its end. -/
theorem Reads.not_of_step_none (h : Reads r ts q) (hnone : q.step t = none) :
    ¬ Reads r (ts ++ t :: us) s := by
  intro hall
  obtain ⟨q', hq', hrest⟩ := reads_append.1 hall
  obtain ⟨_, hstep, _⟩ := reads_cons.1 hrest
  rw [← h.unique hq', hnone] at hstep
  cases hstep

theorem Reads.stop_not_mem {ts : List Token} (h : Reads r ts q) (hq : q.phase ≠ .ended) :
    .stop ∉ ts := by
  induction ts generalizing r with
  | nil => simp
  | cons t ts ih =>
      obtain ⟨r', hstep, hrest⟩ := reads_cons.1 h
      have htail := ih hrest
      rw [List.mem_cons, not_or]
      refine ⟨?_, htail⟩
      rintro rfl
      have hended := (step_ended_iff hstep).2 rfl
      cases ts with
      | nil =>
          cases hrest
          exact hq hended
      | cons u us =>
          obtain ⟨_, hnext, -⟩ := reads_cons.1 hrest
          rw [step_ended hended] at hnext
          cases hnext

theorem Reads.not_ended (h : Reads r ts q) (hr : r.phase ≠ .ended) (hstop : .stop ∉ ts) :
    q.phase ≠ .ended := by
  induction ts generalizing r with
  | nil =>
      cases h
      exact hr
  | cons t ts ih =>
      obtain ⟨r', hstep, hrest⟩ := reads_cons.1 h
      rw [List.mem_cons, not_or] at hstop
      exact ih hrest (fun hended => hstop.1 ((step_ended_iff hstep).1 hended).symm) hstop.2

end Reading

/-! ## Without an ellipsis -/

def Token.filled (t : Token) : Token :=
  if t = .ellipsis then .underscore else t

theorem Token.filled_ne_ellipsis (t : Token) : t.filled ≠ .ellipsis := by
  unfold Token.filled
  split <;> simp [*]

theorem Token.filled_of_ne {t : Token} (h : t ≠ .ellipsis) : t.filled = t :=
  if_neg h

namespace Reading

variable {r s q : Reading} {t : Token} {ts us : List Token} {opened : List Bracket}

/-- The second reading lets at least the same tokens come next. -/
inductive Covers : Reading → Reading → Prop where
  | refl (r : Reading) : Covers r r
  | named (opened : List Bracket) : Covers ⟨.complete, opened⟩ ⟨.named, opened⟩

theorem covers_step_self (h : r.step t = some q) :
    ∃ q', r.step t.filled = some q' ∧ Covers q q' := by
  by_cases ht : t = .ellipsis
  · subst ht
    obtain ⟨phase, opened⟩ := r
    have hfollow : ∀ q, follow? opened .ellipsis ≠ some q := fun q hq => (ne_of_follow? hq).1 rfl
    cases phase with
    | pattern => cases h
    | entry => cases h; exact ⟨_, rfl, .named opened⟩
    | firstEntry => cases h; exact ⟨_, rfl, .named opened⟩
    | named => exact absurd h (hfollow q)
    | complete => exact absurd h (hfollow q)
    | ended => cases h
  · rw [Token.filled_of_ne ht]
    exact ⟨q, h, .refl q⟩

theorem Covers.step (hcovers : Covers r s) (h : r.step t = some q) :
    ∃ q', s.step t.filled = some q' ∧ Covers q q' := by
  cases hcovers with
  | refl => exact covers_step_self h
  | named opened =>
      obtain ⟨hellipsis, hparen⟩ := ne_of_follow? h
      rw [Token.filled_of_ne hellipsis, step_named hparen]
      exact ⟨q, h, .refl q⟩

/-- With `_` in place of every `...`, the same tokens are read. -/
theorem Covers.reads (hcovers : Covers r s) (h : Reads r ts q) :
    ∃ q', Reads s (ts.map Token.filled) q' ∧ Covers q q' := by
  induction ts generalizing r s with
  | nil =>
      cases h
      exact ⟨s, .nil s, hcovers⟩
  | cons t ts ih =>
      obtain ⟨r', hstep, hrest⟩ := reads_cons.1 h
      obtain ⟨s', hstep', hcovers'⟩ := hcovers.step hstep
      obtain ⟨q', hrest', hq'⟩ := ih hcovers' hrest
      exact ⟨q', .cons hstep' hrest', hq'⟩

/-! ## Completions -/

def completion (r : Reading) : List Token :=
  match r.phase with
  | .pattern | .entry | .firstEntry => .underscore :: r.opened.map Bracket.close
  | .named | .complete | .ended => r.opened.map Bracket.close

theorem reads_closing (opened : List Bracket) :
    Reads ⟨.complete, opened⟩ (opened.map Bracket.close ++ [.stop]) ⟨.ended, []⟩ := by
  induction opened with
  | nil => rfl
  | cons b outer ih => exact .cons (step_close b outer) ih

theorem reads_closing_named (opened : List Bracket) :
    Reads ⟨.named, opened⟩ (opened.map Bracket.close ++ [.stop]) ⟨.ended, []⟩ := by
  cases opened with
  | nil => rfl
  | cons b outer =>
      have hparen : b.close ≠ .openParen := by cases b <;> simp [Bracket.close]
      exact .cons ((step_named hparen).trans (step_close b outer)) (reads_closing outer)

theorem reads_completion (h : r.phase ≠ .ended) :
    Reads r (r.completion ++ [.stop]) ⟨.ended, []⟩ := by
  obtain ⟨phase, opened⟩ := r
  cases phase with
  | pattern => exact .cons rfl (reads_closing_named opened)
  | entry => exact .cons rfl (reads_closing_named opened)
  | firstEntry => exact .cons rfl (reads_closing_named opened)
  | named => exact reads_closing_named opened
  | complete => exact reads_closing opened
  | ended => exact absurd rfl h

theorem not_mem_completion (r : Reading) :
    .stop ∉ r.completion ∧ .ellipsis ∉ r.completion := by
  have hclose : ∀ b : Bracket, b.close ≠ .stop ∧ b.close ≠ .ellipsis := by
    intro b
    cases b <;> simp [Bracket.close]
  unfold completion
  split <;> simp [hclose]

end Reading

end Pattern

end TreeLint

import TreeLint.Proofs.Pattern.Mirroring

/-!
# The cursor stays within the tokens

Over scanned tokens, a run with a cursor mirrors the parsers that pass on the tokens that are
left.  So there is always a token at the cursor, a call that succeeds and a round of a loop
that does not fail take at least one token, and the fuel is never used up.
-/

namespace TreeLint

namespace Pattern

/-- The members behind the first one, each behind a bar. -/
def parseOthers (fuel : Nat) (tokens : List Located) :
    Except Fault (List Pattern × List Located) :=
  match eat? .bar tokens with
  | some rest => parseMembers fuel rest
  | none => .ok ([], tokens)

theorem parseMembers_succ (fuel : Nat) (tokens : List Located) :
    parseMembers (fuel + 1) tokens =
      parsePattern fuel tokens >>= fun r =>
        parseOthers fuel r.2 >>= fun others => .ok (r.1 :: others.1, others.2) := by
  rw [parseMembers]
  simp only [parseOthers]
  congr 1
  funext r
  cases eat? .bar r.2 <;> rfl

namespace Cursor

/-! ## The parsers -/

/--
With the given fuel for the runs and for the parsers, the runs have the answers of the
parsers.
-/
structure MirrorsAt (input : Input) (fuel fuel' : Nat) : Prop where
  pattern {calls : List Routine} {rest : List Located} :
    Nested input 1 (.pattern :: calls) rest → 4 * rest.length + 1 ≤ min fuel fuel' →
      Mirrors input (pattern input fuel calls (input.cursor rest)) (parsePattern fuel' rest)
  primary {calls : List Routine} {rest : List Located} :
    Nested input 2 (.primary :: calls) rest → 4 * rest.length ≤ min fuel fuel' →
      Mirrors input (primary input fuel calls (input.cursor rest)) (parsePrimary fuel' rest)
  members {calls : List Routine} {rest : List Located} :
    Nested input 0 (.members :: calls) rest → 4 * rest.length + 2 ≤ min fuel fuel' →
      Mirrors input (members input fuel calls (input.cursor rest)) (parseMembers fuel' rest)
  otherMembers {calls : List Routine} {rest : List Located} :
    Nested input 0 calls rest → 4 * rest.length + 1 ≤ min fuel fuel' →
      Mirrors input (otherMembers input fuel calls (input.cursor rest)) (parseOthers fuel' rest)
  children {calls : List Routine} {rest : List Located} :
    Nested input 0 (.children :: calls) rest → 4 * rest.length + 3 ≤ min fuel fuel' →
      Mirrors input (children input fuel calls (input.cursor rest)) (parseChildren fuel' rest)
  entries {calls : List Routine} {rest : List Located} :
    Nested input 0 calls rest → 4 * rest.length + 2 ≤ min fuel fuel' →
      Mirrors input (entries input fuel calls (input.cursor rest)) (parseEntries fuel' rest)

namespace MirrorsAt

variable {input : Input} {rest : List Located} {calls : List Routine} {fuel fuel' : Nat}

theorem pattern_succ (ih : MirrorsAt input fuel fuel')
    (h : Nested input 1 (.pattern :: calls) rest)
    (hfuel : 4 * rest.length + 1 ≤ min (fuel + 1) (fuel' + 1)) :
    Mirrors input (Cursor.pattern input (fuel + 1) calls (input.cursor rest))
      (parsePattern (fuel' + 1) rest) := by
  have hoperand (f : Pattern → Pattern) (behind : List Located)
      (hstep : Advances input.tokens rest behind) :
      Mirrors input ((Cursor.pattern input fuel (.pattern :: calls) >>= fun p => pure (f p))
        (input.cursor behind)) (parsePattern fuel' behind >>= fun r => .ok (f r.1, r.2)) := by
    have hshorter := hstep.shorter
    exact .bind (ih.pattern (h.operand hstep) (by omega)) fun _ _ _ => .pure _
  rw [Cursor.pattern]
  refine .called h (by omega) ?_ fun p behind => h.remains.advances_pattern
  rw [parsePattern]
  cases hbang : eat? .bang rest with
  | some behind =>
      have hstep := h.remains.advances_eat? hbang (by simp)
      exact .eat_some h.remains hbang (by simp) (hoperand .not behind hstep)
  | none =>
      refine .eat_none h.remains hbang ?_
      cases hcaret : eat? .caret rest with
      | some behind =>
          have hstep := h.remains.advances_eat? hcaret (by simp)
          exact .eat_some h.remains hcaret (by simp) (hoperand .anywhere behind hstep)
      | none => exact .eat_none h.remains hcaret (ih.primary h.primary (by omega))

theorem members_succ (ih : MirrorsAt input fuel fuel')
    (h : Nested input 0 (.members :: calls) rest)
    (hfuel : 4 * rest.length + 2 ≤ min (fuel + 1) (fuel' + 1)) :
    Mirrors input (Cursor.members input (fuel + 1) calls (input.cursor rest))
      (parseMembers (fuel' + 1) rest) := by
  rw [Cursor.members]
  refine .called h (by omega) ?_ fun ps behind => h.remains.advances_members
  rw [parseMembers_succ]
  refine .bind (ih.pattern h.enter (by omega)) ?_
  intro first behind hfirst
  have hstep := h.remains.advances_pattern hfirst
  have hshorter := hstep.shorter
  exact .bind (ih.otherMembers (h.pass hstep) (by omega)) fun _ _ _ => .pure _

theorem otherMembers_succ (ih : MirrorsAt input fuel fuel') (h : Nested input 0 calls rest)
    (hfuel : 4 * rest.length + 1 ≤ min (fuel + 1) (fuel' + 1)) :
    Mirrors input (Cursor.otherMembers input (fuel + 1) calls (input.cursor rest))
      (parseOthers (fuel' + 1) rest) := by
  rw [Cursor.otherMembers, parseOthers]
  refine .here ?_
  cases hbar : eat? .bar rest with
  | none => exact .eat_none h.remains hbar (.pure _)
  | some behind =>
      have hstep := h.remains.advances_eat? hbar (by simp)
      have hshorter := hstep.shorter
      refine .eat_some h.remains hbar (by simp) ?_
      dsimp only
      rw [parseMembers_succ]
      refine .bind (ih.pattern (h.pass hstep).enter (by omega)) ?_
      intro p tail hp
      have hround := hstep.trans (hstep.target.advances_pattern hp)
      have htail := hround.shorter
      refine .round hround ?_
      exact .bind (ih.otherMembers (h.pass hround) (by omega)) fun _ _ _ => .pure _

theorem entry (ih : MirrorsAt input fuel fuel') (h : Nested input 0 calls rest)
    (hfuel : 4 * rest.length + 1 ≤ min fuel fuel') :
    Mirrors input (Cursor.entry input (Cursor.pattern input fuel calls) (input.cursor rest))
      (parseEntry fuel' rest) := by
  rw [Cursor.entry, parseEntry]
  refine .peek h.remains ?_
  cases heat : eat? .ellipsis rest with
  | some behind =>
      obtain ⟨t, rfl, ht⟩ := eat?_eq_some.1 heat
      rw [Pattern.peek, if_pos ht]
      exact .move h.remains (by simp [ht]) (.pure _)
  | none =>
      rw [if_neg (peek_ne_of_eat? h.remains.stop heat)]
      exact .bind (ih.pattern h.enter hfuel) fun _ _ _ => .pure _

theorem entries_succ (ih : MirrorsAt input fuel fuel') (h : Nested input 0 calls rest)
    (hfuel : 4 * rest.length + 2 ≤ min (fuel + 1) (fuel' + 1)) :
    Mirrors input (Cursor.entries input (fuel + 1) calls (input.cursor rest))
      (parseEntries (fuel' + 1) rest) := by
  rw [Cursor.entries, parseEntries_succ]
  refine .here (.bind (ih.entry h (by omega)) ?_)
  intro e behind he
  have hstep := h.remains.advances_entry he
  dsimp only
  cases hclose : eat? .closeParen behind with
  | some tail =>
      have hround := hstep.trans (hstep.target.advances_eat? hclose (by simp))
      exact .eat_some hstep.target hclose (by simp) (.round hround (.pure _))
  | none =>
      refine .eat_none hstep.target hclose (.expect hstep.target (by simp) ?_)
      intro tail hcomma
      have hround := hstep.trans hcomma
      have hshorter := hround.shorter
      refine .round hround ?_
      exact .bind (ih.entries (h.pass hround) (by omega)) fun _ _ _ => .pure _

theorem inside (ih : MirrorsAt input fuel fuel') (h : Nested input 0 calls rest)
    (hfuel : 4 * rest.length + 2 ≤ min fuel fuel') :
    Mirrors input (Cursor.inside input (Cursor.entries input fuel calls) (input.cursor rest))
      (parseInside fuel' rest) := by
  rw [Cursor.inside, parseInside]
  cases hclose : eat? .closeParen rest with
  | some behind => exact .eat_some h.remains hclose (by simp) (.pure _)
  | none => exact .eat_none h.remains hclose (ih.entries h hfuel)

theorem children_succ (ih : MirrorsAt input fuel fuel')
    (h : Nested input 0 (.children :: calls) rest)
    (hfuel : 4 * rest.length + 3 ≤ min (fuel + 1) (fuel' + 1)) :
    Mirrors input (Cursor.children input (fuel + 1) calls (input.cursor rest))
      (parseChildren (fuel' + 1) rest) := by
  rw [Cursor.children]
  refine .called h (by omega) ?_ fun c behind => h.remains.advances_children
  rw [parseChildren_succ]
  refine .expect h.remains (by simp) ?_
  intro behind hopen
  have hshorter := hopen.shorter
  exact .bind (ih.inside (h.pass hopen) (by omega)) fun es _ _ => .ofExcept (closeList es)

theorem named (ih : MirrorsAt input fuel fuel') (p : Pattern)
    (f : List Pattern × Arity → Pattern) (h : Nested input 0 (.children :: calls) rest)
    (hfuel : 4 * rest.length + 3 ≤ min fuel fuel') :
    Mirrors input (Cursor.named input p f (Cursor.children input fuel calls) (input.cursor rest))
      (if (Pattern.peek rest).token = .openParen then
        parseChildren fuel' rest >>= fun r => .ok (f r.1, r.2) else .ok (p, rest)) := by
  rw [Cursor.named]
  refine .peek h.remains ?_
  by_cases hopen : (Pattern.peek rest).token = .openParen
  · rw [if_pos hopen, if_pos hopen]
    exact .bind (ih.children h hfuel) fun _ _ _ => .pure _
  · rw [if_neg hopen, if_neg hopen]
    exact .pure p

theorem bracketed (ih : MirrorsAt input fuel fuel') {close : Token} {expected : Expectation}
    (hclose : close ≠ .stop) (f : List Pattern → Pattern)
    (h : Nested input 0 (.members :: calls) rest) (hfuel : 4 * rest.length + 2 ≤ min fuel fuel') :
    Mirrors input (Cursor.bracketed input close expected f (Cursor.members input fuel calls)
        (input.cursor rest))
      (parseMembers fuel' rest >>= fun r =>
        Pattern.expect close expected r.2 >>= fun behind => .ok (f r.1, behind)) := by
  rw [Cursor.bracketed]
  refine .bind (ih.members h hfuel) ?_
  intro ps behind hmembers
  exact .expect (h.remains.advances_members hmembers).target hclose fun _ _ => .pure _

theorem primary_succ (ih : MirrorsAt input fuel fuel')
    (h : Nested input 2 (.primary :: calls) rest)
    (hfuel : 4 * rest.length ≤ min (fuel + 1) (fuel' + 1)) :
    Mirrors input (Cursor.primary input (fuel + 1) calls (input.cursor rest))
      (parsePrimary (fuel' + 1) rest) := by
  rw [Cursor.primary]
  refine .called h (by omega) ?_ fun p behind => h.remains.advances_primary
  rw [parsePrimary]
  obtain ⟨⟨token, offset⟩, behind, rfl⟩ := exists_cons_of_stop h.remains.stop
  by_cases hstop : token = .stop
  · subst hstop
    exact .after (advance_eq_of_stop h.remains rfl) (within_look h.remains) (.fail _ _)
  · have hadvance : Pattern.advance (⟨token, offset⟩ :: behind) = (⟨token, offset⟩, behind) :=
      if_neg hstop
    have hstep : Advances input.tokens (⟨token, offset⟩ :: behind) behind :=
      ⟨h.remains, h.remains.tail hstop, Nat.lt_succ_self _⟩
    have hinner (routine : Routine) (hroutine : routine ≠ .pattern) :=
      h.inner hstep hroutine
    rw [List.length_cons] at hfuel
    rw [hadvance]
    refine .advance h.remains hstop ?_
    cases token with
    | underscore => exact ih.named .any (fun c => .children c.1 c.2) (hinner _ (by simp)) (by omega)
    | name k => exact ih.named (.kind k) (fun c => .node k c.1 c.2) (hinner _ (by simp)) (by omega)
    | openBrace =>
        refine .peek hstep.target ?_
        by_cases hclose : (Pattern.peek behind).token = .closeBrace
        · simp only [if_pos hclose]
          exact .fail _ _
        · simp only [if_neg hclose]
          exact ih.bracketed (by simp) .oneOf (hinner _ (by simp)) (by omega)
    | openParen => exact ih.bracketed (by simp) grouped (hinner _ (by simp)) (by omega)
    | string s => exact .pure _
    | integer n => exact .pure _
    | float x => exact .pure _
    | true => exact .pure _
    | false => exact .pure _
    | nil => exact .pure _
    | _ => exact .fail _ _

end MirrorsAt

/-- Some token is left, so that no call without fuel has enough of it. -/
theorem mirrorsAt_of_min_eq_zero {input : Input} {fuel fuel' : Nat} (h : min fuel fuel' = 0) :
    MirrorsAt input fuel fuel' := by
  refine ⟨?_, ?_, ?_, ?_, ?_, ?_⟩
  all_goals
    intro calls rest hnested hfuel
    have hpos := hnested.remains.length_pos
    exact absurd hfuel (by omega)

theorem mirrorsAt (input : Input) (fuel fuel' : Nat) : MirrorsAt input fuel fuel' := by
  induction fuel generalizing fuel' with
  | zero => exact mirrorsAt_of_min_eq_zero (Nat.zero_min fuel')
  | succ fuel ih =>
      cases fuel' with
      | zero => exact mirrorsAt_of_min_eq_zero (Nat.min_zero (fuel + 1))
      | succ fuel' =>
          have hless := ih fuel'
          exact ⟨hless.pattern_succ, hless.primary_succ, hless.members_succ,
            hless.otherMembers_succ, hless.children_succ, hless.entries_succ⟩

section Complete

variable {input : Input} {front : List Located} {last fuel : Nat}

/-- A cursor at an end marker is at the last token. -/
theorem cursor_eq_of_stop {rest : List Located} (hsplit : input.tokens = front ++ [⟨.stop, last⟩])
    (hfront : .stop ∉ words front) (h : Remains input.tokens rest)
    (hstop : (Pattern.peek rest).token = .stop) : input.cursor rest = front.length := by
  have hplace := getElem?_cursor h
  have hlt := cursor_lt h
  rw [hsplit, List.length_append, List.length_singleton] at hlt
  by_contra hne
  rw [hsplit, List.getElem?_append_left (by omega)] at hplace
  exact hfront (hstop ▸ List.mem_map_of_mem (List.mem_of_getElem? hplace))

theorem mirrors_pattern (hstop : .stop ∈ words input.tokens)
    (hfuel : 4 * input.tokens.length < fuel) :
    Mirrors input (pattern input fuel [] 0)
      (parsePattern (4 * input.tokens.length + 4) input.tokens) := by
  have hstart : input.cursor input.tokens = 0 := Nat.sub_self _
  have hroot : Nested input 1 [.pattern] input.tokens := by
    refine ⟨.refl hstop, ?_, ?_⟩
    · rw [List.length_singleton]
      omega
    · rw [List.count_cons_self, List.count_nil]
      omega
  rw [← hstart]
  exact (mirrorsAt input fuel _).pattern hroot (by omega)

def parseAll (tokens : List Located) : Except Fault (Pattern × List Located) :=
  parsePattern (4 * tokens.length + 4) tokens >>= fun r =>
    if (Pattern.peek r.2).token = .stop then .ok (r.1, r.2)
    else .error ⟨.trailingInput, (Pattern.peek r.2).offset⟩

theorem map_parseAll (tokens : List Located) :
    (parseAll tokens).map Prod.fst = parseTokens tokens := by
  rw [parseAll, parseTokens]
  cases parsePattern (4 * tokens.length + 4) tokens with
  | error fault => rfl
  | ok r =>
      show (if (Pattern.peek r.2).token = .stop then _ else _ : Except _ _).map Prod.fst =
        if (Pattern.peek r.2).token = .stop then _ else _
      split <;> rfl

theorem mirrors_complete (hstop : .stop ∈ words input.tokens)
    (hfuel : 4 * input.tokens.length < fuel) :
    Mirrors input (complete input fuel 0) (parseAll input.tokens) := by
  rw [complete, parseAll]
  refine .bind (mirrors_pattern hstop hfuel) ?_
  intro p rest hp
  have hrest := ((Remains.refl hstop).advances_pattern hp).target
  refine .peek hrest ?_
  by_cases hnext : (Pattern.peek rest).token = .stop
  · simp only [if_pos hnext]
    exact .pure p
  · simp only [if_neg hnext]
    exact .fail _ _

/-- A run that succeeds ends at the end marker. -/
theorem answer_complete (hsplit : input.tokens = front ++ [⟨.stop, last⟩])
    (hfront : .stop ∉ words front) (hfuel : 4 * input.tokens.length < fuel) :
    (complete input fuel 0).answer =
      (parseTokens input.tokens).map fun p => (p, front.length) := by
  have hstop : .stop ∈ words input.tokens := by simp [hsplit]
  rw [(mirrors_complete hstop hfuel).answer, ← map_parseAll]
  cases hall : parseAll input.tokens with
  | error fault => rfl
  | ok r =>
      obtain ⟨p, rest⟩ := r
      obtain ⟨⟨q, behind⟩, hparse, hnext⟩ := bind_eq_ok.1 hall
      have hbehind := ((Remains.refl hstop).advances_pattern hparse).target
      by_cases hend : (Pattern.peek behind).token = .stop
      · rw [if_pos hend] at hnext
        cases hnext
        show Except.ok (q, input.cursor behind) = .ok (q, front.length)
        rw [cursor_eq_of_stop hsplit hfront hbehind hend]
      · rw [if_neg hend] at hnext
        cases hnext

/-- The moves lead from one place to the next, and not behind the end marker. -/
theorem exists_moves_complete (hsplit : input.tokens = front ++ [⟨.stop, last⟩])
    (hfuel : 4 * input.tokens.length < fuel) :
    ∃ reached ≤ front.length,
      (complete input fuel 0).events.filterMap Event.move? = List.range' 1 reached ∧
        ∀ p cursor, (complete input fuel 0).answer = .ok (p, cursor) → cursor = reached := by
  obtain ⟨reached, hmoves, hleft⟩ := stepwise_complete input fuel 0
  rw [Nat.zero_add] at hmoves
  refine ⟨reached, ?_, hmoves, fun p cursor h => by rw [hleft p cursor h, Nat.zero_add]⟩
  by_contra hbeyond
  have hlast : reached ∈ List.range' 1 reached := by
    rw [List.mem_range'_1]
    omega
  rw [← hmoves] at hlast
  obtain ⟨e, he, hmove⟩ := List.mem_filterMap.1 hlast
  have hwithin := (mirrors_complete (by simp [hsplit]) hfuel).within e he
  cases e with
  | move cursor =>
      cases hmove
      rw [Event.Within, hsplit, List.length_append, List.length_singleton] at hwithin
      omega
  | _ => cases hmove

end Complete

end Cursor

/--
Compiling a text never goes beyond the end marker of its tokens.  The cursor is moved from one
place to the next, and stands at the end marker when a text compiles.  Wherever it is looked
at or left by a call there is a token, so that the one that would stand for a missing token
does not matter.  Every call that succeeds and every round of a loop that does not fail end
with a larger cursor than they began with.  So the nesting is bounded by the number of tokens,
and the fuel is not used up, however much more of it there is.  Each of the four parsers, given
tokens that are left, leaves fewer of them when it succeeds.
-/
theorem parser_stays_within_tokens {text : String} {tokens : List Located}
    (hscan : scan text = .ok tokens) :
    ∃ front last, tokens = front ++ [⟨.stop, last⟩] ∧ .stop ∉ words front ∧
      (∀ fuel before rest, Remains tokens before →
        (∀ p, parsePattern fuel before = .ok (p, rest) → Advances tokens before rest) ∧
        (∀ p, parsePrimary fuel before = .ok (p, rest) → Advances tokens before rest) ∧
        (∀ ps, parseMembers fuel before = .ok (ps, rest) → Advances tokens before rest) ∧
        (∀ c, parseChildren fuel before = .ok (c, rest) → Advances tokens before rest)) ∧
      ∀ fallback fuel, 4 * tokens.length < fuel →
        (∀ e ∈ (Cursor.complete ⟨tokens, fallback⟩ fuel 0).events, e.Within tokens.length) ∧
        ∃ reached ≤ front.length,
          (Cursor.complete ⟨tokens, fallback⟩ fuel 0).events.filterMap Cursor.Event.move? =
            List.range' 1 reached ∧
          match (Cursor.complete ⟨tokens, fallback⟩ fuel 0).answer with
          | .ok (p, cursor) => compile text = .ok p ∧ cursor = reached ∧ reached = front.length
          | .error fault => compile text = .error ⟨text, fault⟩ := by
  obtain ⟨front, last, hsplit, hfront⟩ := scanFrom_eq_concat hscan
  refine ⟨front, last, hsplit, hfront, fun fuel before rest hbefore =>
    ⟨fun _ => hbefore.advances_pattern, fun _ => hbefore.advances_primary,
      fun _ => hbefore.advances_members, fun _ => hbefore.advances_children⟩, ?_⟩
  intro fallback fuel hfuel
  have hstop : .stop ∈ words tokens := by simp [hsplit]
  have hanswer : (Cursor.complete ⟨tokens, fallback⟩ fuel 0).answer =
      (parseTokens tokens).map fun p => (p, front.length) :=
    Cursor.answer_complete hsplit hfront hfuel
  have hends : (⟨tokens, fallback⟩ : Cursor.Input).tokens = front ++ [⟨.stop, last⟩] := hsplit
  obtain ⟨reached, hle, hmoves, hleft⟩ := Cursor.exists_moves_complete hends hfuel
  refine ⟨(Cursor.mirrors_complete hstop hfuel).within, reached, hle, hmoves, ?_⟩
  rw [hanswer] at hleft ⊢
  cases hparse : parseTokens tokens with
  | ok p =>
      have hcompile : compile text = .ok p := by simp only [compile, hscan, hparse]
      have hreached : front.length = reached := hleft p front.length (by rw [hparse]; rfl)
      exact ⟨hcompile, hreached, hreached.symm⟩
  | error fault =>
      have hcompile : compile text = .error ⟨text, fault⟩ := by simp only [compile, hscan, hparse]
      exact hcompile

/-- The tokens of `a(!b,`, a child list that is not closed. -/
def unclosedList : List Located :=
  [⟨.name "a", 0⟩, ⟨.openParen, 1⟩, ⟨.bang, 2⟩, ⟨.name "b", 3⟩, ⟨.comma, 4⟩, ⟨.stop, 5⟩]

/--
An unclosed list ends with a look at the end marker and no further.  Before that its first
entry is read by a pattern inside of a child list, in one round of the loop over the entries.
-/
theorem parser_stays_within_unclosedList :
    scan "a(!b," = .ok unclosedList ∧
      Advances unclosedList (unclosedList.drop 2) (unclosedList.drop 4) ∧
      .call [.pattern, .children, .primary, .pattern] 2 ∈
        (Cursor.complete ⟨unclosedList, ⟨.bang, 9⟩⟩ 25 0).events ∧
      .done .pattern 2 4 ∈ (Cursor.complete ⟨unclosedList, ⟨.bang, 9⟩⟩ 25 0).events ∧
      .round 2 5 ∈ (Cursor.complete ⟨unclosedList, ⟨.bang, 9⟩⟩ 25 0).events ∧
      (∀ e ∈ (Cursor.complete ⟨unclosedList, ⟨.bang, 9⟩⟩ 25 0).events, e.Within 6) ∧
      compile "a(!b," = .error ⟨"a(!b,", ⟨.unexpectedEnd .pattern, 5⟩⟩ := by
  have hscan : scan "a(!b," = .ok unclosedList := by decide +kernel
  obtain ⟨front, last, -, -, hparsers, hrun⟩ := parser_stays_within_tokens hscan
  have hentry : parsePattern 9 (unclosedList.drop 2) =
      .ok (.not (.kind "b"), unclosedList.drop 4) := rfl
  have hleft : Remains unclosedList (unclosedList.drop 2) :=
    ⟨by decide, List.drop_suffix 2 unclosedList⟩
  obtain ⟨hwithin, reached, -, -, hanswer⟩ := hrun ⟨.bang, 9⟩ 25 (by decide)
  exact ⟨hscan, (hparsers 9 _ _ hleft).1 _ hentry, by decide, by decide, by decide, hwithin,
    hanswer⟩

end Pattern

end TreeLint

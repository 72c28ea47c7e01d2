import TreeLint.Proofs.Pattern.CursorParser
import TreeLint.Proofs.Pattern.Progress

/-!
# Runs with a cursor and the tokens that are left

A run with a cursor mirrors a parser that passes on the tokens that are left, if it has the
same answer and if all that it records takes place within the tokens: there is a token at the
cursor, what ends has taken a token, and the calls in progress are bounded by the tokens that
are gone.
-/

namespace TreeLint

namespace Pattern

namespace Cursor

/-! ## The place of the cursor -/

/-- The place of the cursor when these tokens are left. -/
def Input.cursor (input : Input) (rest : List Located) : Nat :=
  input.tokens.length - rest.length

section Place

variable {input : Input} {t : Located} {rest behind : List Located}

theorem cursor_add_length (h : Remains input.tokens rest) :
    input.cursor rest + rest.length = input.tokens.length :=
  Nat.sub_add_cancel h.length_le

theorem cursor_lt (h : Remains input.tokens rest) : input.cursor rest < input.tokens.length := by
  have hpos := h.length_pos
  have hplace := cursor_add_length h
  omega

theorem cursor_lt_cursor (h : Advances input.tokens rest behind) :
    input.cursor rest < input.cursor behind := by
  have hrest := cursor_add_length h.source
  have hbehind := cursor_add_length h.target
  have hshorter := h.shorter
  omega

theorem cursor_tail (h : Remains input.tokens (t :: rest)) :
    input.cursor (t :: rest) + 1 = input.cursor rest := by
  have hle := h.length_le
  rw [List.length_cons] at hle
  rw [Input.cursor, Input.cursor, List.length_cons]
  omega

theorem getElem?_cursor (h : Remains input.tokens rest) :
    input.tokens[input.cursor rest]? = some (Pattern.peek rest) := by
  obtain ⟨t, tail, rfl⟩ := exists_cons_of_stop h.stop
  obtain ⟨front, hfront⟩ := h.isSuffix
  have hcursor : input.cursor (t :: tail) = front.length := by
    rw [Input.cursor, ← hfront, List.length_append, Nat.add_sub_cancel]
  rw [hcursor, ← hfront, List.getElem?_append_right (Nat.le_refl _), Nat.sub_self]
  rfl

theorem peek_eq (h : Remains input.tokens rest) :
    peek input (input.cursor rest) =
      ⟨[.look (input.cursor rest)], .ok (Pattern.peek rest, input.cursor rest)⟩ := by
  unfold peek
  rw [getElem?_cursor h]

theorem move_eq (h : Remains input.tokens (t :: rest)) :
    move (input.cursor (t :: rest)) =
      ⟨[.move (input.cursor rest)], .ok ((), input.cursor rest)⟩ := by
  unfold move
  rw [cursor_tail h]

/-- What is done after a look at the next token. -/
theorem peek_bind {α : Type} (h : Remains input.tokens rest) (f : Located → Step α) :
    (peek input >>= f) (input.cursor rest) =
      ⟨.look (input.cursor rest) :: (f (Pattern.peek rest) (input.cursor rest)).events,
        (f (Pattern.peek rest) (input.cursor rest)).answer⟩ := by
  show (peek input (input.cursor rest)).andThen f = _
  rw [peek_eq h]
  rfl

/-- What is done after a move behind the next token. -/
theorem move_bind {α : Type} (h : Remains input.tokens (t :: rest)) (f : Unit → Step α) :
    (move >>= f) (input.cursor (t :: rest)) =
      ⟨.move (input.cursor rest) :: (f () (input.cursor rest)).events,
        (f () (input.cursor rest)).answer⟩ := by
  show (move (input.cursor (t :: rest))).andThen f = _
  rw [move_eq h]
  rfl

theorem eat_eq_true {token : Token} (h : Remains input.tokens rest)
    (heat : eat? token rest = some behind) :
    eat input token (input.cursor rest) =
      ⟨[.look (input.cursor rest), .move (input.cursor behind)],
        .ok (true, input.cursor behind)⟩ := by
  obtain ⟨t, rfl, ht⟩ := eat?_eq_some.1 heat
  rw [eat, peek_bind h, Pattern.peek, if_pos ht, move_bind h]
  rfl

theorem eat_eq_false {token : Token} (h : Remains input.tokens rest)
    (heat : eat? token rest = none) :
    eat input token (input.cursor rest) =
      ⟨[.look (input.cursor rest)], .ok (false, input.cursor rest)⟩ := by
  rw [eat, peek_bind h, if_neg (peek_ne_of_eat? h.stop heat)]
  rfl

theorem expect_eq_of_some {token : Token} {expected : Expectation} (h : Remains input.tokens rest)
    (heat : eat? token rest = some behind) :
    expect input token expected (input.cursor rest) =
      ⟨[.look (input.cursor rest), .move (input.cursor behind)],
        .ok ((), input.cursor behind)⟩ := by
  obtain ⟨t, rfl, ht⟩ := eat?_eq_some.1 heat
  rw [expect, peek_bind h, Pattern.peek, if_pos ht, move_eq h]

theorem expect_eq_of_none {token : Token} {expected : Expectation} (h : Remains input.tokens rest)
    (heat : eat? token rest = none) :
    expect input token expected (input.cursor rest) =
      ⟨[.look (input.cursor rest)], .error (unexpected (Pattern.peek rest) expected)⟩ := by
  rw [expect, peek_bind h, if_neg (peek_ne_of_eat? h.stop heat)]
  rfl

theorem advance_eq (h : Remains input.tokens (t :: rest)) (ht : t.token ≠ .stop) :
    advance input (input.cursor (t :: rest)) =
      ⟨[.look (input.cursor (t :: rest)), .move (input.cursor rest)],
        .ok (t, input.cursor rest)⟩ := by
  rw [advance, peek_bind h, Pattern.peek, if_neg ht, move_bind h]
  rfl

theorem advance_eq_of_stop (h : Remains input.tokens (t :: rest)) (ht : t.token = .stop) :
    advance input (input.cursor (t :: rest)) =
      ⟨[.look (input.cursor (t :: rest))], .ok (t, input.cursor (t :: rest))⟩ := by
  rw [advance, peek_bind h, Pattern.peek, if_pos ht]
  rfl

end Place

/-! ## Calls in progress -/

/--
The calls in progress are paid for by the tokens that are gone: three calls for each, of
which one is for a pattern, beside those that have not yet taken a token.
-/
structure Nested (input : Input) (level : Nat) (calls : List Routine) (rest : List Located) :
    Prop where
  remains : Remains input.tokens rest
  depth : calls.length ≤ 3 * input.cursor rest + level
  patterns : calls.count .pattern ≤ input.cursor rest + min level 1

namespace Nested

variable {input : Input} {rest behind : List Located} {calls : List Routine} {level : Nat}

theorem pass (h : Nested input level calls rest) (h' : Advances input.tokens rest behind) :
    Nested input level calls behind := by
  have hdepth := h.depth
  have hpatterns := h.patterns
  have hcursor := cursor_lt_cursor h'
  exact ⟨h'.target, by omega, by omega⟩

/-- A pattern inside of members or of a child list. -/
theorem enter (h : Nested input 0 calls rest) : Nested input 1 (.pattern :: calls) rest := by
  have hdepth := h.depth
  have hpatterns := h.patterns
  refine ⟨h.remains, ?_, ?_⟩
  · rw [List.length_cons]
    omega
  · rw [List.count_cons_self]
    omega

/-- A pattern behind an operator. -/
theorem operand (h : Nested input 1 calls rest) (h' : Advances input.tokens rest behind) :
    Nested input 1 (.pattern :: calls) behind := by
  have hdepth := h.depth
  have hpatterns := h.patterns
  have hcursor := cursor_lt_cursor h'
  refine ⟨h'.target, ?_, ?_⟩
  · rw [List.length_cons]
    omega
  · rw [List.count_cons_self]
    omega

theorem primary (h : Nested input 1 calls rest) : Nested input 2 (.primary :: calls) rest := by
  have hdepth := h.depth
  have hpatterns := h.patterns
  refine ⟨h.remains, ?_, ?_⟩
  · rw [List.length_cons]
    omega
  · rw [List.count_cons_of_ne (by simp)]
    omega

/-- Members or a child list, behind the token with which the primary begins. -/
theorem inner {routine : Routine} (h : Nested input 2 calls rest)
    (h' : Advances input.tokens rest behind) (hroutine : routine ≠ .pattern) :
    Nested input 0 (routine :: calls) behind := by
  have hdepth := h.depth
  have hpatterns := h.patterns
  have hcursor := cursor_lt_cursor h'
  refine ⟨h'.target, ?_, ?_⟩
  · rw [List.length_cons]
    omega
  · rw [List.count_cons_of_ne hroutine]
    omega

end Nested

/-! ## Runs that stay within the tokens -/

/--
The event takes place within the given number of tokens.  No token is missing, what ends has
moved the cursor, and the nesting is bounded by the place of the cursor.
-/
def Event.Within (count : Nat) : Event → Prop
  | .look cursor => cursor < count
  | .miss _ => False
  | .move cursor => cursor < count
  | .call calls cursor =>
      cursor < count ∧ calls.count .pattern ≤ cursor + 1 ∧ calls.length ≤ 3 * cursor + 2
  | .done _ start cursor => start < cursor ∧ cursor < count
  | .round start cursor => start < cursor ∧ cursor < count
  | .spent => False

theorem within_look {input : Input} {rest : List Located} (h : Remains input.tokens rest) :
    ∀ e ∈ [Event.look (input.cursor rest)], e.Within input.tokens.length := by
  intro e he
  rw [List.mem_singleton.1 he]
  exact cursor_lt h

theorem within_take {input : Input} {rest behind : List Located} (h : Remains input.tokens rest)
    (h' : Remains input.tokens behind) :
    ∀ e ∈ [Event.look (input.cursor rest), .move (input.cursor behind)],
      e.Within input.tokens.length := by
  intro e he
  rcases List.mem_pair.1 he with rfl | rfl
  · exact cursor_lt h
  · exact cursor_lt h'

/-- The run stays within the tokens and has the answer of the parser. -/
structure Mirrors {α : Type} (input : Input) (x : Run α) (y : Except Fault (α × List Located)) :
    Prop where
  within : ∀ e ∈ x.events, e.Within input.tokens.length
  answer : x.answer = y.map fun r => (r.1, input.cursor r.2)

namespace Mirrors

variable {α β : Type} {input : Input} {rest behind : List Located}

theorem silent {answer : Except Fault (α × Nat)} {y : Except Fault (α × List Located)}
    (h : answer = y.map fun r => (r.1, input.cursor r.2)) : Mirrors input ⟨[], answer⟩ y := by
  refine ⟨?_, h⟩
  intro e he
  cases he

theorem pure (a : α) : Mirrors input ((Pure.pure a : Step α) (input.cursor rest)) (.ok (a, rest)) :=
  .silent rfl

theorem fail (fault : Fault) (cursor : Nat) :
    Mirrors input ((Cursor.fail fault : Step α) cursor) (.error fault) :=
  .silent rfl

theorem ofExcept (x : Except Fault α) :
    Mirrors input (Cursor.ofExcept x (input.cursor rest)) (x >>= fun a => .ok (a, rest)) := by
  apply silent
  cases x <;> rfl

theorem bind {x : Step α} {f : α → Step β} {cursor : Nat} {y : Except Fault (α × List Located)}
    {g : α × List Located → Except Fault (β × List Located)} (hx : Mirrors input (x cursor) y)
    (hf : ∀ a behind, y = .ok (a, behind) →
      Mirrors input (f a (input.cursor behind)) (g (a, behind))) :
    Mirrors input ((x >>= f) cursor) (y >>= g) := by
  show Mirrors input ((x cursor).andThen f) (y >>= g)
  unfold Run.andThen
  rw [hx.answer]
  cases hy : y with
  | error fault => exact ⟨hx.within, rfl⟩
  | ok r =>
      obtain ⟨a, behind⟩ := r
      have hrun := hf a behind hy
      refine ⟨?_, hrun.answer⟩
      intro e he
      rcases List.mem_append.1 he with hmem | hmem
      · exact hx.within e hmem
      · exact hrun.within e hmem

/-- What is done without a fault before the run of a parser. -/
theorem after {x : Step α} {f : α → Step β} {cursor cursor' : Nat} {a : α} {events : List Event}
    {y : Except Fault (β × List Located)} (hx : x cursor = ⟨events, .ok (a, cursor')⟩)
    (hevents : ∀ e ∈ events, e.Within input.tokens.length)
    (hf : Mirrors input (f a cursor') y) : Mirrors input ((x >>= f) cursor) y := by
  show Mirrors input ((x cursor).andThen f) y
  rw [hx]
  refine ⟨?_, hf.answer⟩
  intro e he
  rcases List.mem_append.1 he with hmem | hmem
  · exact hevents e hmem
  · exact hf.within e hmem

theorem here {f : Nat → Step β} {cursor : Nat} {y : Except Fault (β × List Located)}
    (hf : Mirrors input (f cursor cursor) y) : Mirrors input ((Cursor.here >>= f) cursor) y :=
  .after rfl (List.forall_mem_nil _) hf

theorem note {e : Event} {f : Unit → Step β} {cursor : Nat}
    {y : Except Fault (β × List Located)} (he : e.Within input.tokens.length)
    (hf : Mirrors input (f () cursor) y) : Mirrors input ((Cursor.note e >>= f) cursor) y := by
  refine .after rfl ?_ hf
  intro e' he'
  rwa [List.mem_singleton.1 he']

theorem peek {f : Located → Step β} {y : Except Fault (β × List Located)}
    (h : Remains input.tokens rest)
    (hf : Mirrors input (f (Pattern.peek rest) (input.cursor rest)) y) :
    Mirrors input ((Cursor.peek input >>= f) (input.cursor rest)) y :=
  .after (peek_eq h) (within_look h) hf

theorem move {t : Located} {f : Unit → Step β} {y : Except Fault (β × List Located)}
    (h : Remains input.tokens (t :: behind)) (ht : t.token ≠ .stop)
    (hf : Mirrors input (f () (input.cursor behind)) y) :
    Mirrors input ((Cursor.move >>= f) (input.cursor (t :: behind))) y := by
  refine .after (move_eq h) ?_ hf
  intro e he
  rw [List.mem_singleton.1 he]
  exact cursor_lt (h.tail ht)

/-- An answer that is given on, between a call and its end. -/
theorem called {routine : Routine} {calls : List Routine} {level : Nat} {body : Step α}
    {y : Except Fault (α × List Located)} (h : Nested input level (routine :: calls) rest)
    (hlevel : level ≤ 2) (hbody : Mirrors input (body (input.cursor rest)) y)
    (hy : ∀ a behind, y = .ok (a, behind) → Advances input.tokens rest behind) :
    Mirrors input (Cursor.called routine calls body (input.cursor rest)) y := by
  have hcall : (Event.call (routine :: calls) (input.cursor rest)).Within input.tokens.length := by
    have hdepth := h.depth
    have hpatterns := h.patterns
    exact ⟨cursor_lt h.remains, by omega, by omega⟩
  have hgiven : (y >>= fun r => .ok (r.1, r.2)) = y := by
    cases y <;> rfl
  rw [← hgiven]
  refine .here (.note hcall (.bind hbody ?_))
  intro a behind ha
  have hstep := hy a behind ha
  exact .here (.note ⟨cursor_lt_cursor hstep, cursor_lt hstep.target⟩ (.pure a))

theorem round {f : Unit → Step β} {y : Except Fault (β × List Located)}
    (h : Advances input.tokens rest behind) (hf : Mirrors input (f () (input.cursor behind)) y) :
    Mirrors input ((Cursor.round (input.cursor rest) >>= f) (input.cursor behind)) y := by
  refine .after rfl ?_ hf
  intro e he
  rw [List.mem_singleton.1 he]
  exact ⟨cursor_lt_cursor h, cursor_lt h.target⟩

theorem eat_some {token : Token} {yes no : Step β} {y : Except Fault (β × List Located)}
    (h : Remains input.tokens rest) (heat : eat? token rest = some behind) (htoken : token ≠ .stop)
    (hyes : Mirrors input (yes (input.cursor behind)) y) :
    Mirrors input ((Cursor.eat input token >>= fun found => if found = true then yes else no)
      (input.cursor rest)) y :=
  .after (eat_eq_true h heat) (within_take h (h.of_eat? heat htoken)) hyes

theorem eat_none {token : Token} {yes no : Step β} {y : Except Fault (β × List Located)}
    (h : Remains input.tokens rest) (heat : eat? token rest = none)
    (hno : Mirrors input (no (input.cursor rest)) y) :
    Mirrors input ((Cursor.eat input token >>= fun found => if found = true then yes else no)
      (input.cursor rest)) y :=
  .after (eat_eq_false h heat) (within_look h) hno

theorem expect {token : Token} {expected : Expectation} {f : Unit → Step β}
    {g : List Located → Except Fault (β × List Located)} (h : Remains input.tokens rest)
    (htoken : token ≠ .stop)
    (hf : ∀ behind, Advances input.tokens rest behind →
      Mirrors input (f () (input.cursor behind)) (g behind)) :
    Mirrors input ((Cursor.expect input token expected >>= f) (input.cursor rest))
      (Pattern.expect token expected rest >>= g) := by
  rw [Pattern.expect]
  cases heat : eat? token rest with
  | some behind =>
      have hstep := h.advances_eat? heat htoken
      exact .after (expect_eq_of_some h heat) (within_take h hstep.target) (hf behind hstep)
  | none =>
      show Mirrors input ((Cursor.expect input token expected _).andThen f) _
      rw [expect_eq_of_none h heat]
      exact ⟨within_look h, rfl⟩

theorem advance {t : Located} {f : Located → Step β} {y : Except Fault (β × List Located)}
    (h : Remains input.tokens (t :: behind)) (ht : t.token ≠ .stop)
    (hf : Mirrors input (f t (input.cursor behind)) y) :
    Mirrors input ((Cursor.advance input >>= f) (input.cursor (t :: behind))) y :=
  .after (advance_eq h ht) (within_take h (h.tail ht)) hf

end Mirrors

end Cursor

end Pattern

end TreeLint

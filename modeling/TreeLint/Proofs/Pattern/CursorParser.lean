import TreeLint.Pattern.Parse

/-!
# Parsing with a cursor

The parsers as they are run over a list of tokens that stays as it is, while a cursor moves
over it.  A run keeps a record of all that happens to the cursor: every look at a token and
every move, the calls in progress, and the rounds of the loops.  Where there is no token at
the cursor, a token that is given in advance takes its place.  Whatever the tokens are, the
cursor is moved by one token at a time, and every move is in the record.
-/

namespace TreeLint

namespace Pattern

namespace Cursor

inductive Routine where
  | pattern
  | primary
  | members
  | children
deriving DecidableEq, Repr

inductive Event where
  /-- The token at the cursor is looked at. -/
  | look (cursor : Nat)
  /-- A token is looked for, but there is none at the cursor. -/
  | miss (cursor : Nat)
  /-- The cursor is moved to this place. -/
  | move (cursor : Nat)
  /-- A parser begins; the calls in progress are listed, its own first. -/
  | call (calls : List Routine) (cursor : Nat)
  /-- A parser ends without a fault, and has brought the cursor from one place to another. -/
  | done (routine : Routine) (start cursor : Nat)
  /-- A round of a loop ends without a fault. -/
  | round (start cursor : Nat)
  /-- A call is refused because the fuel is used up. -/
  | spent
deriving DecidableEq, Repr

/-- What happened, and the fault or the answer with the cursor that is left. -/
structure Run (α : Type) where
  events : List Event
  answer : Except Fault (α × Nat)

def Step (α : Type) : Type :=
  Nat → Run α

variable {α β : Type}

/-- Go on from the cursor that is left, unless there is a fault. -/
def Run.andThen (x : Run α) (f : α → Step β) : Run β :=
  match x.answer with
  | .ok (a, cursor) => ⟨x.events ++ (f a cursor).events, (f a cursor).answer⟩
  | .error fault => ⟨x.events, .error fault⟩

instance : Monad Step where
  pure a := fun cursor => ⟨[], .ok (a, cursor)⟩
  bind x f := fun cursor => (x cursor).andThen f

/-- The tokens, and what stands for a token that is missing. -/
structure Input where
  tokens : List Located
  fallback : Located

/-! ## The cursor -/

def ofExcept (x : Except Fault α) : Step α :=
  fun cursor => ⟨[], x.map fun a => (a, cursor)⟩

def fail (fault : Fault) : Step α :=
  ofExcept (.error fault)

def note (e : Event) : Step Unit :=
  fun cursor => ⟨[e], .ok ((), cursor)⟩

def here : Step Nat :=
  fun cursor => ⟨[], .ok (cursor, cursor)⟩

def peek (input : Input) : Step Located :=
  fun cursor =>
    match input.tokens[cursor]? with
    | some t => ⟨[.look cursor], .ok (t, cursor)⟩
    | none => ⟨[.miss cursor], .ok (input.fallback, cursor)⟩

def move : Step Unit :=
  fun cursor => ⟨[.move (cursor + 1)], .ok ((), cursor + 1)⟩

/-- The token at the cursor, which is moved behind it unless it is the end marker. -/
def advance (input : Input) : Step Located := do
  let t ← peek input
  if t.token = .stop then return t
  else
    move
    return t

def eat (input : Input) (token : Token) : Step Bool := do
  let t ← peek input
  if t.token = token then
    move
    return true
  else return false

def expect (input : Input) (token : Token) (expected : Expectation) : Step Unit := do
  let t ← peek input
  if t.token = token then move
  else fail (unexpected t expected)

def called (routine : Routine) (calls : List Routine) (body : Step α) : Step α := do
  let start ← here
  note (.call (routine :: calls) start)
  let a ← body
  note (.done routine start (← here))
  return a

def round (start : Nat) : Step Unit := do
  note (.round start (← here))

/-- Refuse a call without fuel. -/
def spent (input : Input) : Step α :=
  fun _ => ⟨[.spent], .error (unexpected input.fallback .pattern)⟩

/-! ## The parsers -/

/-- A pattern without a child list, or with one if a parenthesis comes next. -/
def named (input : Input) (plain : Pattern) (withChildren : List Pattern × Arity → Pattern)
    (children : Step (List Pattern × Arity)) : Step Pattern := do
  let next ← peek input
  if next.token = .openParen then
    let c ← children
    return withChildren c
  else return plain

def bracketed (input : Input) (close : Token) (expected : Expectation)
    (f : List Pattern → Pattern) (members : Step (List Pattern)) : Step Pattern := do
  let ps ← members
  expect input close expected
  return f ps

def entry (input : Input) (pattern : Step Pattern) : Step Entry := do
  let next ← peek input
  if next.token = .ellipsis then
    move
    return .ellipsis next.offset
  else
    let p ← pattern
    return .item p

def inside (input : Input) (entries : Step (List Entry)) : Step (List Entry) := do
  if ← eat input .closeParen then return []
  else entries

mutual

def pattern (input : Input) : Nat → List Routine → Step Pattern
  | 0, _ => spent input
  | fuel + 1, calls => called .pattern calls do
      if ← eat input .bang then
        let inner ← pattern input fuel (.pattern :: calls)
        return .not inner
      else if ← eat input .caret then
        let inner ← pattern input fuel (.pattern :: calls)
        return .anywhere inner
      else primary input fuel (.pattern :: calls)

/-- A pattern without an operator in front. -/
def primary (input : Input) : Nat → List Routine → Step Pattern
  | 0, _ => spent input
  | fuel + 1, calls => called .primary calls do
      let next ← advance input
      match next.token with
      | .underscore =>
          named input .any (fun c => .children c.1 c.2) (children input fuel (.primary :: calls))
      | .name k =>
          named input (.kind k) (fun c => .node k c.1 c.2)
            (children input fuel (.primary :: calls))
      | .string s => return .literal (.string s)
      | .integer n => return .literal (.integer n)
      | .float x => return .literal (.float x)
      | .true => return .literal (.boolean true)
      | .false => return .literal (.boolean false)
      | .nil => return .literal .nil
      | .openBrace =>
          let behind ← peek input
          if behind.token = .closeBrace then fail ⟨.emptyAlternation, next.offset⟩
          else
            bracketed input .closeBrace .barOrBrace .oneOf
              (members input fuel (.primary :: calls))
      | .openParen =>
          bracketed input .closeParen .barOrParen grouped (members input fuel (.primary :: calls))
      | .ellipsis => fail ⟨.ellipsisOutsideChildren, next.offset⟩
      | .closeParen | .closeBrace | .bar | .comma | .bang | .caret | .stop =>
          fail (unexpected next .pattern)

def members (input : Input) : Nat → List Routine → Step (List Pattern)
  | 0, _ => spent input
  | fuel + 1, calls => called .members calls do
      let first ← pattern input fuel (.members :: calls)
      let others ← otherMembers input fuel (.members :: calls)
      return first :: others

/-- The loop over further members, each behind a bar. -/
def otherMembers (input : Input) : Nat → List Routine → Step (List Pattern)
  | 0, _ => spent input
  | fuel + 1, calls => do
      let start ← here
      if ← eat input .bar then
        let p ← pattern input fuel calls
        round start
        let others ← otherMembers input fuel calls
        return p :: others
      else return []

def children (input : Input) : Nat → List Routine → Step (List Pattern × Arity)
  | 0, _ => spent input
  | fuel + 1, calls => called .children calls do
      expect input .openParen .openParen
      let es ← inside input (entries input fuel (.children :: calls))
      ofExcept (closeList es)

/-- The loop over the entries of a child list, up to the closing parenthesis. -/
def entries (input : Input) : Nat → List Routine → Step (List Entry)
  | 0, _ => spent input
  | fuel + 1, calls => do
      let start ← here
      let e ← entry input (pattern input fuel calls)
      if ← eat input .closeParen then
        round start
        return [e]
      else
        expect input .comma .commaOrParen
        round start
        let es ← entries input fuel calls
        return e :: es

end

def complete (input : Input) (fuel : Nat) : Step Pattern := do
  let p ← pattern input fuel []
  let next ← peek input
  if next.token = .stop then return p
  else fail ⟨.trailingInput, next.offset⟩

/-! ## One token at a time -/

def Event.move? : Event → Option Nat
  | .move cursor => some cursor
  | _ => none

/--
The record has all moves of the cursor: they lead from one place to the next, up to the cursor
that is left.
-/
def Stepwise (x : Step α) : Prop :=
  ∀ cursor, ∃ count,
    (x cursor).events.filterMap Event.move? = List.range' (cursor + 1) count ∧
      ∀ a cursor', (x cursor).answer = .ok (a, cursor') → cursor' = cursor + count

namespace Stepwise

variable {input : Input}

theorem ofExcept (x : Except Fault α) : Stepwise (Cursor.ofExcept x) := by
  intro cursor
  refine ⟨0, rfl, ?_⟩
  intro a cursor' h
  cases x with
  | error fault => cases h
  | ok b =>
      cases h
      rfl

theorem pure (a : α) : Stepwise (Pure.pure a : Step α) :=
  ofExcept (.ok a)

theorem here : Stepwise Cursor.here := by
  intro cursor
  refine ⟨0, rfl, ?_⟩
  rintro b cursor' ⟨⟩
  rfl

theorem note {e : Event} (h : e.move? = none) : Stepwise (Cursor.note e) := by
  intro cursor
  refine ⟨0, List.filterMap_cons_none h, ?_⟩
  rintro b cursor' ⟨⟩
  rfl

theorem peek : Stepwise (Cursor.peek input) := by
  intro cursor
  unfold Cursor.peek
  split
  all_goals
    refine ⟨0, rfl, ?_⟩
    rintro b cursor' ⟨⟩
    rfl

theorem move : Stepwise Cursor.move := by
  intro cursor
  refine ⟨1, rfl, ?_⟩
  rintro b cursor' ⟨⟩
  rfl

theorem spent : Stepwise (Cursor.spent input : Step α) := by
  intro cursor
  refine ⟨0, rfl, ?_⟩
  intro a cursor' h
  cases h

theorem bind {x : Step α} {f : α → Step β} (hx : Stepwise x) (hf : ∀ a, Stepwise (f a)) :
    Stepwise (x >>= f) := by
  intro cursor
  show ∃ count, ((x cursor).andThen f).events.filterMap Event.move? = _ ∧
    ∀ b cursor', ((x cursor).andThen f).answer = .ok (b, cursor') → _
  obtain ⟨count, hmoves, hleft⟩ := hx cursor
  unfold Run.andThen
  split
  · rename_i a middle ha
    obtain rfl := hleft a middle ha
    obtain ⟨count', hmoves', hleft'⟩ := hf a (cursor + count)
    refine ⟨count + count', ?_, ?_⟩
    · rw [List.filterMap_append, hmoves, hmoves', Nat.add_right_comm, List.range'_append_1]
    · intro b cursor' hb
      rw [hleft' b cursor' hb, Nat.add_assoc]
  · exact ⟨count, hmoves, fun b cursor' hb => by cases hb⟩

theorem ite {c : Prop} [Decidable c] {x y : Step α} (hx : Stepwise x) (hy : Stepwise y) :
    Stepwise (if c then x else y) := by
  split
  · exact hx
  · exact hy

theorem eat {token : Token} : Stepwise (Cursor.eat input token) :=
  .bind .peek fun _ => .ite (.bind .move fun _ => .pure _) (.pure _)

theorem expect {token : Token} {expected : Expectation} :
    Stepwise (Cursor.expect input token expected) :=
  .bind .peek fun _ => .ite .move (.ofExcept _)

theorem advance : Stepwise (Cursor.advance input) :=
  .bind .peek fun _ => .ite (.pure _) (.bind .move fun _ => .pure _)

theorem called {routine : Routine} {calls : List Routine} {body : Step α} (h : Stepwise body) :
    Stepwise (Cursor.called routine calls body) :=
  .bind .here fun _ => .bind (.note rfl) fun _ => .bind h fun _ =>
    .bind .here fun _ => .bind (.note rfl) fun _ => .pure _

theorem round {start : Nat} : Stepwise (Cursor.round start) :=
  .bind .here fun _ => .note rfl

end Stepwise

/-- With the given fuel, the parsers move the cursor one token at a time. -/
structure StepwiseAt (input : Input) (fuel : Nat) : Prop where
  pattern (calls : List Routine) : Stepwise (pattern input fuel calls)
  primary (calls : List Routine) : Stepwise (primary input fuel calls)
  members (calls : List Routine) : Stepwise (members input fuel calls)
  otherMembers (calls : List Routine) : Stepwise (otherMembers input fuel calls)
  children (calls : List Routine) : Stepwise (children input fuel calls)
  entries (calls : List Routine) : Stepwise (entries input fuel calls)

namespace StepwiseAt

variable {input : Input} {fuel : Nat}

theorem pattern_succ (ih : StepwiseAt input fuel) (calls : List Routine) :
    Stepwise (Cursor.pattern input (fuel + 1) calls) := by
  rw [Cursor.pattern]
  refine .called (.bind .eat fun _ => .ite (.bind (ih.pattern _) fun _ => .pure _) ?_)
  exact .bind .eat fun _ => .ite (.bind (ih.pattern _) fun _ => .pure _) (ih.primary _)

theorem named (ih : StepwiseAt input fuel) (p : Pattern) (f : List Pattern × Arity → Pattern)
    (calls : List Routine) :
    Stepwise (Cursor.named input p f (Cursor.children input fuel calls)) :=
  .bind .peek fun _ => .ite (.bind (ih.children _) fun _ => .pure _) (.pure _)

theorem bracketed (ih : StepwiseAt input fuel) (close : Token) (expected : Expectation)
    (f : List Pattern → Pattern) (calls : List Routine) :
    Stepwise (Cursor.bracketed input close expected f (Cursor.members input fuel calls)) :=
  .bind (ih.members _) fun _ => .bind .expect fun _ => .pure _

theorem primary_succ (ih : StepwiseAt input fuel) (calls : List Routine) :
    Stepwise (Cursor.primary input (fuel + 1) calls) := by
  rw [Cursor.primary]
  refine .called (.bind .advance ?_)
  rintro ⟨token, offset⟩
  cases token with
  | underscore => exact ih.named _ _ _
  | name k => exact ih.named _ _ _
  | openBrace => exact .bind .peek fun _ => .ite (.ofExcept _) (ih.bracketed _ _ _ _)
  | openParen => exact ih.bracketed _ _ _ _
  | string s => exact .pure _
  | integer n => exact .pure _
  | float x => exact .pure _
  | true => exact .pure _
  | false => exact .pure _
  | nil => exact .pure _
  | _ => exact .ofExcept _

theorem members_succ (ih : StepwiseAt input fuel) (calls : List Routine) :
    Stepwise (Cursor.members input (fuel + 1) calls) := by
  rw [Cursor.members]
  exact .called (.bind (ih.pattern _) fun _ => .bind (ih.otherMembers _) fun _ => .pure _)

theorem otherMembers_succ (ih : StepwiseAt input fuel) (calls : List Routine) :
    Stepwise (Cursor.otherMembers input (fuel + 1) calls) := by
  rw [Cursor.otherMembers]
  refine .bind .here fun _ => .bind .eat fun _ => .ite ?_ (.pure _)
  exact .bind (ih.pattern _) fun _ => .bind .round fun _ =>
    .bind (ih.otherMembers _) fun _ => .pure _

theorem children_succ (ih : StepwiseAt input fuel) (calls : List Routine) :
    Stepwise (Cursor.children input (fuel + 1) calls) := by
  have hinside (calls : List Routine) :
      Stepwise (Cursor.inside input (Cursor.entries input fuel calls)) :=
    .bind .eat fun _ => .ite (.pure _) (ih.entries _)
  rw [Cursor.children]
  exact .called (.bind .expect fun _ => .bind (hinside _) fun _ => .ofExcept _)

theorem entries_succ (ih : StepwiseAt input fuel) (calls : List Routine) :
    Stepwise (Cursor.entries input (fuel + 1) calls) := by
  have hentry : Stepwise (Cursor.entry input (Cursor.pattern input fuel calls)) :=
    .bind .peek fun _ => .ite (.bind .move fun _ => .pure _)
      (.bind (ih.pattern _) fun _ => .pure _)
  rw [Cursor.entries]
  refine .bind .here fun _ => .bind hentry fun _ => .bind .eat fun _ => .ite ?_ ?_
  · exact .bind .round fun _ => .pure _
  · exact .bind .expect fun _ => .bind .round fun _ => .bind (ih.entries _) fun _ => .pure _

end StepwiseAt

theorem stepwiseAt (input : Input) (fuel : Nat) : StepwiseAt input fuel := by
  induction fuel with
  | zero =>
      refine ⟨?_, ?_, ?_, ?_, ?_, ?_⟩
      all_goals
        intro calls
        exact .spent
  | succ fuel ih =>
      exact ⟨ih.pattern_succ, ih.primary_succ, ih.members_succ, ih.otherMembers_succ,
        ih.children_succ, ih.entries_succ⟩

theorem stepwise_complete (input : Input) (fuel : Nat) : Stepwise (complete input fuel) :=
  .bind ((stepwiseAt input fuel).pattern _) fun _ =>
    .bind .peek fun _ => .ite (.pure _) (.ofExcept _)

end Cursor

end Pattern

end TreeLint

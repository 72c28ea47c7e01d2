import TreeLint.Pattern.Match
import TreeLint.Proofs.Data.List
import TreeLint.Proofs.Number.Magnitude

/-!
# The meaning of patterns

What it means for a slot to match a pattern, said without an order of evaluation,
and the proof that the matcher decides it.
-/

namespace TreeLint

/-- Equality of terminal values: the same kind of value, and the same value. -/
inductive Value.Equals : Value → Value → Prop where
  | integer (n : Int64) : Equals (.integer n) (.integer n)
  | float {x y : Binary64} : x.Equals y → Equals (.float x) (.float y)
  | boolean (b : Bool) : Equals (.boolean b) (.boolean b)
  | string (s : String) : Equals (.string s) (.string s)
  | nil : Equals .nil .nil

theorem Value.same_iff_equals {v w : Value} : v.same w = true ↔ v.Equals w := by
  constructor
  · intro h
    cases v with
    | float x =>
        cases w with
        | float y => exact .float (Binary64.same_iff_equals.1 h)
        | _ => simp [same] at h
    | integer n =>
        obtain rfl : Value.integer n = w := by simpa [same] using h
        exact .integer n
    | boolean b =>
        obtain rfl : Value.boolean b = w := by simpa [same] using h
        exact .boolean b
    | string s =>
        obtain rfl : Value.string s = w := by simpa [same] using h
        exact .string s
    | nil =>
        obtain rfl : Value.nil = w := by simpa [same] using h
        exact .nil
  · intro h
    cases h with
    | float h => exact Binary64.same_iff_equals.2 h
    | _ => simp [same]

theorem Value.Equals.symm {v w : Value} (h : v.Equals w) : w.Equals v := by
  cases h with
  | float h => exact .float h.symm
  | integer n => exact .integer n
  | boolean b => exact .boolean b
  | string s => exact .string s
  | nil => exact .nil

theorem Value.Equals.trans {u v w : Value} (h : u.Equals v) (h' : v.Equals w) : u.Equals w := by
  cases h with
  | float h =>
      cases h' with
      | float h' => exact .float (h.trans h')
  | integer n => exact h'
  | boolean b => exact h'
  | string s => exact h'
  | nil => exact h'

namespace Slot

/-- A slot leads to itself and, through nodes, to the non-empty slots beneath it. -/
inductive Reaches : Slot → Slot → Prop where
  | here (s : Slot) : Reaches s s
  | descend {kind : String} {children : List Slot} {span : Span} {s t : Slot} :
      s ∈ children → s ≠ .empty → Reaches s t → Reaches (.node kind children span) t

theorem Reaches.trans {s t u : Slot} (h : s.Reaches t) (h' : t.Reaches u) : s.Reaches u := by
  induction h with
  | here => exact h'
  | descend hmem hne _ ih => exact .descend hmem hne (ih h')

theorem mem_filledChildren {s t : Slot} :
    t ∈ s.filledChildren ↔
      ∃ kind children span, s = .node kind children span ∧ t ∈ children ∧ t ≠ .empty := by
  cases s with
  | node kind children span =>
      have hempty : t.isEmpty = false ↔ t ≠ .empty := by cases t <;> simp [isEmpty]
      simp [filledChildren, hempty]
  | terminal v => simp [filledChildren]
  | empty => simp [filledChildren]

theorem reaches_iff {s t : Slot} :
    s.Reaches t ↔ s = t ∨ ∃ u ∈ s.filledChildren, u.Reaches t := by
  constructor
  · intro h
    cases h with
    | here => exact .inl rfl
    | descend hmem hne h => exact .inr ⟨_, mem_filledChildren.2 ⟨_, _, _, rfl, hmem, hne⟩, h⟩
  · rintro (rfl | ⟨u, hu, h⟩)
    · exact .here s
    · obtain ⟨kind, children, span, rfl, hmem, hne⟩ := mem_filledChildren.1 hu
      exact .descend hmem hne h

/-- The search with pending slots finds what some pending slot leads to. -/
theorem anyWithin_iff {test : Slot → Bool} {pending : List Slot} :
    anyWithin test pending = true ↔ ∃ s ∈ pending, ∃ t, s.Reaches t ∧ test t = true := by
  -- What the pending slots lead to, together, is kept when one of them gives way to its children.
  fun_induction anyWithin test pending with
  | case1 => simp
  | case2 s rest ih =>
      rw [Bool.or_eq_true, ih]
      constructor
      · rintro (h | ⟨u, hu, t, hreach, ht⟩)
        · exact ⟨s, List.mem_cons_self, s, .here s, h⟩
        · rcases List.mem_append.1 hu with hu | hu
          · exact ⟨s, List.mem_cons_self, t, reaches_iff.2 (.inr ⟨u, hu, hreach⟩), ht⟩
          · exact ⟨u, List.mem_cons_of_mem s hu, t, hreach, ht⟩
      · rintro ⟨u, hu, t, hreach, ht⟩
        rcases List.mem_cons.1 hu with rfl | hu
        · rcases reaches_iff.1 hreach with rfl | ⟨v, hv, hreach⟩
          · exact .inl ht
          · exact .inr ⟨v, List.mem_append_left rest hv, t, hreach, ht⟩
        · exact .inr ⟨u, List.mem_append_right _ hu, t, hreach, ht⟩

end Slot

namespace Pattern

/-! ## Meaning -/

/-- The numbers of slots that a child list allows. -/
def Allows : Arity → Nat → Nat → Prop
  | .exact, items, slots => slots = items
  | .atLeast, items, slots => items ≤ slots

def Holds : Pattern → Slot → Prop
  | .any, _ => True
  | .kind name, s => ∃ children span, s = .node name children span
  | .literal v, s => ∃ w, s = .terminal w ∧ v.Equals w
  | .children items arity, s =>
      ∃ kind slots span, s = .node kind slots span ∧ Allows arity items.length slots.length ∧
        ∀ i (h : i < items.length), ∃ slot, slots[i]? = some slot ∧ Holds items[i] slot
  | .node name items arity, s =>
      ∃ slots span, s = .node name slots span ∧ Allows arity items.length slots.length ∧
        ∀ i (h : i < items.length), ∃ slot, slots[i]? = some slot ∧ Holds items[i] slot
  | .oneOf members, s => ∃ (p : Pattern) (_ : p ∈ members), Holds p s
  | .not inner, s => ¬ Holds inner s
  | .anywhere inner, s => ∃ t, s.Reaches t ∧ Holds inner t
termination_by p => p
decreasing_by
  · have := List.sizeOf_lt_of_mem (List.getElem_mem h)
    decreasing_tactic
  · have := List.sizeOf_lt_of_mem (List.getElem_mem h)
    decreasing_tactic
  all_goals decreasing_tactic

/-- Induction over patterns, with the hypothesis for every item and every member. -/
@[elab_as_elim]
theorem members_induction {motive : Pattern → Prop} (kind : ∀ name, motive (.kind name))
    (any : motive .any) (literal : ∀ v, motive (.literal v))
    (children : ∀ items arity, (∀ p ∈ items, motive p) → motive (.children items arity))
    (node : ∀ name items arity, (∀ p ∈ items, motive p) → motive (.node name items arity))
    (oneOf : ∀ members, (∀ p ∈ members, motive p) → motive (.oneOf members))
    (not : ∀ inner, motive inner → motive (.not inner))
    (anywhere : ∀ inner, motive inner → motive (.anywhere inner)) (p : Pattern) : motive p :=
  match p with
  | .kind name => kind name
  | .any => any
  | .literal v => literal v
  | .children items arity =>
      children items arity fun q _ =>
        members_induction kind any literal children node oneOf not anywhere q
  | .node name items arity =>
      node name items arity fun q _ =>
        members_induction kind any literal children node oneOf not anywhere q
  | .oneOf members =>
      oneOf members fun q _ =>
        members_induction kind any literal children node oneOf not anywhere q
  | .not inner =>
      not inner (members_induction kind any literal children node oneOf not anywhere inner)
  | .anywhere inner =>
      anywhere inner (members_induction kind any literal children node oneOf not anywhere inner)
termination_by p

/-! ## Lists of patterns, one by one -/

theorem sameAll_iff_forall₂ {ps qs : List Pattern} :
    sameAll ps qs = true ↔ List.Forall₂ (fun p q => p.same q = true) ps qs := by
  induction ps generalizing qs with
  | nil => cases qs <;> simp [sameAll]
  | cons p ps ih => cases qs <;> simp [sameAll, ih]

/-! ## The matcher decides the meaning -/

theorem admitsCount_iff {arity : Arity} {items slots : Nat} :
    admitsCount arity items slots = true ↔ Allows arity items slots := by
  cases arity <;> simp [admitsCount, Allows]

theorem someAccepts_iff {members : List Pattern} {s : Slot} :
    someAccepts members s = true ↔ ∃ p ∈ members, p.accepts s = true := by
  induction members with
  | nil => simp [someAccepts]
  | cons p ps ih => simp [someAccepts, ih]

theorem acceptsEach_iff {items : List Pattern} {slots : List Slot} :
    acceptsEach items slots = true ↔
      ∀ i (h : i < items.length), ∃ slot, slots[i]? = some slot ∧ items[i].accepts slot = true := by
  induction items generalizing slots with
  | nil => simp [acceptsEach]
  | cons p ps ih =>
      cases slots with
      | nil =>
          simp only [acceptsEach, Bool.false_eq_true, false_iff]
          intro h
          obtain ⟨slot, hslot, -⟩ := h 0 (by simp)
          simp at hslot
      | cons s ss =>
          rw [acceptsEach, Bool.and_eq_true, ih]
          constructor
          · rintro ⟨hfirst, hrest⟩ i hi
            cases i with
            | zero => exact ⟨s, rfl, hfirst⟩
            | succ i => exact hrest i (by simpa using hi)
          · intro h
            refine ⟨?_, fun i hi => ?_⟩
            · obtain ⟨slot, hslot, haccepts⟩ := h 0 (by simp)
              cases hslot
              exact haccepts
            · exact h (i + 1) (by simpa using hi)

theorem accepts_anywhere_iff {inner : Pattern} {s : Slot} :
    (Pattern.anywhere inner).accepts s = true ↔ ∃ t, s.Reaches t ∧ inner.accepts t = true := by
  rw [accepts, Slot.anyWithin_iff]
  simp

/-- Under the hypothesis for the items, matching them one by one is what the child list means. -/
theorem acceptsEach_iff_holds {items : List Pattern}
    (ih : ∀ p ∈ items, ∀ s, p.accepts s = true ↔ p.Holds s) {slots : List Slot} :
    acceptsEach items slots = true ↔
      ∀ i (h : i < items.length), ∃ slot, slots[i]? = some slot ∧ Holds items[i] slot := by
  rw [acceptsEach_iff]
  refine forall_congr' fun i => forall_congr' fun hi => exists_congr fun slot => ?_
  rw [ih items[i] (List.getElem_mem hi)]

theorem accepts_iff (p : Pattern) (s : Slot) : p.accepts s = true ↔ p.Holds s := by
  induction p using members_induction generalizing s with
  | kind name =>
      cases s <;> simp [accepts, Holds]
  | any => simp [accepts, Holds]
  | literal v =>
      cases s <;> simp [accepts, Holds, Value.same_iff_equals]
  | children items arity ih =>
      cases s with
      | node kind slots span =>
          simp [accepts, Holds, admitsCount_iff, acceptsEach_iff_holds ih]
      | _ => simp [accepts, Holds]
  | node name items arity ih =>
      cases s with
      | node kind slots span =>
          simp [accepts, Holds, admitsCount_iff, acceptsEach_iff_holds ih, and_assoc]
      | _ => simp [accepts, Holds]
  | oneOf members ih =>
      rw [accepts, Holds, someAccepts_iff]
      simp only [exists_prop]
      exact exists_congr fun p => and_congr_right fun hp => ih p hp s
  | not inner ih =>
      rw [accepts, Holds, ← ih, Bool.not_eq_true', Bool.not_eq_true]
  | anywhere inner ih =>
      rw [accepts_anywhere_iff, Holds]
      exact exists_congr fun t => and_congr_right fun _ => ih t

/--
The matcher decides the meaning, and its search with a stack of pending slots is
the search by recursion.
-/
theorem accepts_decides_meaning :
    (∀ (p : Pattern) (s : Slot), p.accepts s = true ↔ p.Holds s) ∧
      ∀ (q : Pattern) (kind : String) (children : List Slot) (span : Span),
        (Pattern.anywhere q).accepts (.node kind children span) = true ↔
          q.accepts (.node kind children span) = true ∨
            ∃ t ∈ children, t ≠ .empty ∧ (Pattern.anywhere q).accepts t = true := by
  refine ⟨accepts_iff, fun q kind children span => ?_⟩
  rw [accepts_anywhere_iff]
  constructor
  · rintro ⟨t, hreach, ht⟩
    cases hreach with
    | here => exact .inl ht
    | descend hmem hne hreach => exact .inr ⟨_, hmem, hne, accepts_anywhere_iff.2 ⟨t, hreach, ht⟩⟩
  · rintro (h | ⟨u, hmem, hne, h⟩)
    · exact ⟨_, .here _, h⟩
    · obtain ⟨t, hreach, ht⟩ := accepts_anywhere_iff.1 h
      exact ⟨t, .descend hmem hne hreach, ht⟩

end Pattern

end TreeLint

import TreeLint.Proofs.Pattern.Meaning

/-!
# Entailment between patterns

A pattern entails another when every slot that it accepts is accepted by the other.
Every operator carries entailment from its parts to the whole, and negation turns it
around.  So what easing a child list does to a pattern depends on the number of
negations around that list.
-/

namespace TreeLint

namespace Pattern

/-- Every slot that the first pattern accepts is accepted by the second. -/
def Entails (p q : Pattern) : Prop :=
  ∀ s, p.accepts s = true → q.accepts s = true

variable {p q : Pattern} {ps qs : List Pattern} {a b : Arity} {n : Nat}

theorem accepts_oneOf_iff {s : Slot} :
    (Pattern.oneOf ps).accepts s = true ↔ ∃ p ∈ ps, p.accepts s = true := by
  rw [accepts, someAccepts_iff]

theorem accepts_not_iff {s : Slot} :
    (Pattern.not p).accepts s = true ↔ ¬ p.accepts s = true := by
  rw [accepts, Bool.not_eq_true', Bool.not_eq_true]

theorem acceptsEach_mono (h : List.Forall₂ Entails ps qs) {slots : List Slot}
    (hslots : acceptsEach ps slots = true) : acceptsEach qs slots = true := by
  induction h generalizing slots with
  | nil => rfl
  | cons hp _ ih =>
      cases slots with
      | nil => simp [acceptsEach] at hslots
      | cons s rest =>
          rw [acceptsEach, Bool.and_eq_true] at hslots ⊢
          exact ⟨hp s hslots.1, ih hslots.2⟩

theorem admitsCount_mono (h : a = b ∨ b = .atLeast) {items slots : Nat}
    (hcount : admitsCount a items slots = true) : admitsCount b items slots = true := by
  rw [admitsCount_iff] at hcount ⊢
  rcases h with rfl | rfl
  · exact hcount
  · cases a with
    | exact => exact Nat.le_of_eq (Eq.symm hcount)
    | atLeast => exact hcount

namespace Entails

theorem refl (p : Pattern) : Entails p p :=
  fun _ hs => hs

theorem trans {r : Pattern} (h : Entails p q) (h' : Entails q r) : Entails p r :=
  fun s hs => h' s (h s hs)

/-! ## The operators -/

theorem children (harity : a = b ∨ b = .atLeast) (h : List.Forall₂ Entails ps qs) :
    Entails (.children ps a) (.children qs b) := by
  intro s hs
  cases s with
  | node kind slots span =>
      rw [accepts, Bool.and_eq_true] at hs ⊢
      rw [← h.length_eq]
      exact ⟨admitsCount_mono harity hs.1, acceptsEach_mono h hs.2⟩
  | terminal v => simp [accepts] at hs
  | empty => simp [accepts] at hs

theorem node (name : String) (harity : a = b ∨ b = .atLeast) (h : List.Forall₂ Entails ps qs) :
    Entails (.node name ps a) (.node name qs b) := by
  intro s hs
  cases s with
  | node kind slots span =>
      rw [accepts, Bool.and_eq_true, Bool.and_eq_true] at hs ⊢
      rw [← h.length_eq]
      exact ⟨⟨hs.1.1, admitsCount_mono harity hs.1.2⟩, acceptsEach_mono h hs.2⟩
  | terminal v => simp [accepts] at hs
  | empty => simp [accepts] at hs

theorem oneOf (h : ∀ p ∈ ps, ∃ q ∈ qs, Entails p q) : Entails (.oneOf ps) (.oneOf qs) := by
  intro s hs
  obtain ⟨p, hp, haccepts⟩ := accepts_oneOf_iff.1 hs
  obtain ⟨q, hq, hentails⟩ := h p hp
  exact accepts_oneOf_iff.2 ⟨q, hq, hentails s haccepts⟩

theorem not (h : Entails p q) : Entails (.not q) (.not p) := by
  intro s hs
  rw [accepts_not_iff] at hs ⊢
  exact fun haccepts => hs (h s haccepts)

theorem anywhere (h : Entails p q) : Entails (.anywhere p) (.anywhere q) := by
  intro s hs
  obtain ⟨t, hreach, haccepts⟩ := accepts_anywhere_iff.1 hs
  exact accepts_anywhere_iff.2 ⟨t, hreach, h t haccepts⟩

theorem oneOf_each (h : List.Forall₂ Entails ps qs) : Entails (.oneOf ps) (.oneOf qs) :=
  oneOf fun _ hp => exists_of_forall₂ h hp

end Entails

/-! ## Easing child lists -/

/-- How the arity of a child list may change under a number of negations. -/
inductive Turned (negations : Nat) : Arity → Arity → Prop where
  | keep (arity : Arity) : Turned negations arity arity
  | loosen (h : Even negations) : Turned negations .exact .atLeast
  | tighten (h : Odd negations) : Turned negations .atLeast .exact

mutual

/--
The second pattern is the first with the arities of some of its child lists changed:
loosened under an even number of negations, tightened under an odd number.  The
negations around the whole pattern count too.
-/
inductive Eased : Nat → Pattern → Pattern → Prop where
  | same (n : Nat) (p : Pattern) : Eased n p p
  | children {n : Nat} {ps qs : List Pattern} {a b : Arity} :
      EasedEach n ps qs → Turned n a b → Eased n (.children ps a) (.children qs b)
  | node {n : Nat} {ps qs : List Pattern} {a b : Arity} (name : String) :
      EasedEach n ps qs → Turned n a b → Eased n (.node name ps a) (.node name qs b)
  | oneOf {n : Nat} {ps qs : List Pattern} :
      EasedEach n ps qs → Eased n (.oneOf ps) (.oneOf qs)
  | not {n : Nat} {p q : Pattern} : Eased (n + 1) p q → Eased n (.not p) (.not q)
  | anywhere {n : Nat} {p q : Pattern} : Eased n p q → Eased n (.anywhere p) (.anywhere q)

inductive EasedEach : Nat → List Pattern → List Pattern → Prop where
  | nil (n : Nat) : EasedEach n [] []
  | cons {n : Nat} {p q : Pattern} {ps qs : List Pattern} :
      Eased n p q → EasedEach n ps qs → EasedEach n (p :: ps) (q :: qs)

end

theorem Turned.even (h : Turned n a b) (hn : Even n) : a = b ∨ b = .atLeast := by
  cases h with
  | keep => exact .inl rfl
  | loosen => exact .inr rfl
  | tighten hodd => exact absurd hn (Nat.not_even_iff_odd.2 hodd)

theorem Turned.odd (h : Turned n a b) (hn : Odd n) : b = a ∨ a = .atLeast := by
  cases h with
  | keep => exact .inl rfl
  | loosen heven => exact absurd heven (Nat.not_even_iff_odd.2 hn)
  | tighten => exact .inr rfl

/-- Under an even number of negations the second pattern accepts no less, otherwise no more. -/
structure Grows (negations : Nat) (p q : Pattern) : Prop where
  even : Even negations → Entails p q
  odd : Odd negations → Entails q p

namespace Grows

theorem refl (n : Nat) (p : Pattern) : Grows n p p :=
  ⟨fun _ => .refl p, fun _ => .refl p⟩

theorem each_even (h : List.Forall₂ (Grows n) ps qs) (hn : Even n) :
    List.Forall₂ Entails ps qs :=
  h.imp fun _ _ hp => hp.even hn

theorem each_odd (h : List.Forall₂ (Grows n) ps qs) (hn : Odd n) :
    List.Forall₂ Entails qs ps :=
  h.flip.imp fun _ _ hp => hp.odd hn

theorem children (h : List.Forall₂ (Grows n) ps qs) (hturned : Turned n a b) :
    Grows n (.children ps a) (.children qs b) where
  even hn := .children (hturned.even hn) (each_even h hn)
  odd hn := .children (hturned.odd hn) (each_odd h hn)

theorem node (name : String) (h : List.Forall₂ (Grows n) ps qs) (hturned : Turned n a b) :
    Grows n (.node name ps a) (.node name qs b) where
  even hn := .node name (hturned.even hn) (each_even h hn)
  odd hn := .node name (hturned.odd hn) (each_odd h hn)

theorem oneOf (h : List.Forall₂ (Grows n) ps qs) : Grows n (.oneOf ps) (.oneOf qs) where
  even hn := .oneOf_each (each_even h hn)
  odd hn := .oneOf_each (each_odd h hn)

theorem not (h : Grows (n + 1) p q) : Grows n (.not p) (.not q) where
  even hn := (h.odd hn.add_one).not
  odd hn := (h.even hn.add_one).not

theorem anywhere (h : Grows n p q) : Grows n (.anywhere p) (.anywhere q) where
  even hn := (h.even hn).anywhere
  odd hn := (h.odd hn).anywhere

end Grows

mutual

theorem Eased.grows {n : Nat} {p q : Pattern} (h : Eased n p q) : Grows n p q :=
  match h with
  | .same n p => .refl n p
  | .children hitems hturned => .children hitems.grows hturned
  | .node name hitems hturned => .node name hitems.grows hturned
  | .oneOf hmembers => .oneOf hmembers.grows
  | .not hinner => .not hinner.grows
  | .anywhere hinner => .anywhere hinner.grows

theorem EasedEach.grows {n : Nat} {ps qs : List Pattern} (h : EasedEach n ps qs) :
    List.Forall₂ (Grows n) ps qs :=
  match h with
  | .nil _ => .nil
  | .cons hfirst hrest => .cons hfirst.grows hrest.grows

end

/--
A pattern whose child lists are loosened under an even number of negations, and
tightened under an odd number, accepts every slot that it accepted before.
-/
theorem accepts_of_eased (h : Eased 0 p q) {s : Slot} (hs : p.accepts s = true) :
    q.accepts s = true :=
  h.grows.even Even.zero s hs

/-- Child lists under no negation, under one and under two. -/
def strictList : Pattern :=
  .children
    [.not (.node "call" [.any] .atLeast),
      .anywhere (.not (.oneOf [.kind "name", .not (.children [.any] .exact)]))]
    .exact

def easedList : Pattern :=
  .children
    [.not (.node "call" [.any] .exact),
      .anywhere (.not (.oneOf [.kind "name", .not (.children [.any] .atLeast)]))]
    .atLeast

theorem accepts_easedList :
    let s : Slot := .node "block" [.node "call" [] default, .node "list" [.empty] default] default
    Eased 0 strictList easedList ∧ strictList.accepts s = true ∧ easedList.accepts s = true := by
  intro s
  have hcall : Eased 1 (.node "call" [.any] .atLeast) (.node "call" [.any] .exact) :=
    .node "call" (.cons (.same 1 .any) (.nil 1)) (.tighten odd_one)
  have hlist : Eased 2 (.children [.any] .exact) (.children [.any] .atLeast) :=
    .children (.cons (.same 2 .any) (.nil 2)) (.loosen even_two)
  have heased : Eased 0 strictList easedList :=
    .children
      (.cons (.not hcall)
        (.cons (.anywhere (.not (.oneOf (.cons (.same 1 _) (.cons (.not hlist) (.nil 1))))))
          (.nil 0)))
      (.loosen Even.zero)
  have hstrict : strictList.accepts s = true := by decide +kernel
  exact ⟨heased, hstrict, accepts_of_eased heased hstrict⟩

end Pattern

end TreeLint

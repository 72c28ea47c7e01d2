import TreeLint.Proofs.Pattern.Entailment

/-!
# Rewriting patterns

Patterns that accept the same slots can stand for each other at every place of a
pattern.  Rewrites of alternatives, of double negations and of nested searches are of
this kind, so they change nothing that is matched, wherever and however often they are
made.
-/

namespace TreeLint

namespace Pattern

variable {p q : Pattern} {ps qs : List Pattern}

/-- The patterns accept the same slots. -/
structure Equivalent (p q : Pattern) : Prop where
  forward : Entails p q
  backward : Entails q p

namespace Equivalent

theorem accepts_eq (h : Equivalent p q) (s : Slot) : p.accepts s = q.accepts s :=
  Bool.eq_iff_iff.2 ⟨h.forward s, h.backward s⟩

theorem of_iff (h : ∀ s, p.accepts s = true ↔ q.accepts s = true) : Equivalent p q :=
  ⟨fun s => (h s).1, fun s => (h s).2⟩

theorem refl (p : Pattern) : Equivalent p p :=
  ⟨.refl p, .refl p⟩

theorem symm (h : Equivalent p q) : Equivalent q p :=
  ⟨h.backward, h.forward⟩

theorem trans {r : Pattern} (h : Equivalent p q) (h' : Equivalent q r) : Equivalent p r :=
  ⟨h.forward.trans h'.forward, h'.backward.trans h.backward⟩

/-! ## The operators -/

theorem each_forward (h : List.Forall₂ Equivalent ps qs) : List.Forall₂ Entails ps qs :=
  h.imp fun _ _ hp => hp.forward

theorem each_backward (h : List.Forall₂ Equivalent ps qs) : List.Forall₂ Entails qs ps :=
  h.flip.imp fun _ _ hp => hp.backward

theorem children (h : List.Forall₂ Equivalent ps qs) (arity : Arity) :
    Equivalent (.children ps arity) (.children qs arity) :=
  ⟨.children (.inl rfl) (each_forward h), .children (.inl rfl) (each_backward h)⟩

theorem node (name : String) (h : List.Forall₂ Equivalent ps qs) (arity : Arity) :
    Equivalent (.node name ps arity) (.node name qs arity) :=
  ⟨.node name (.inl rfl) (each_forward h), .node name (.inl rfl) (each_backward h)⟩

theorem oneOf (h : List.Forall₂ Equivalent ps qs) : Equivalent (.oneOf ps) (.oneOf qs) :=
  ⟨.oneOf_each (each_forward h), .oneOf_each (each_backward h)⟩

theorem not (h : Equivalent p q) : Equivalent (.not p) (.not q) :=
  ⟨h.backward.not, h.forward.not⟩

theorem anywhere (h : Equivalent p q) : Equivalent (.anywhere p) (.anywhere q) :=
  ⟨h.forward.anywhere, h.backward.anywhere⟩

end Equivalent

/-! ## Equal patterns -/

theorem forall₂_of_sameAll {R : Pattern → Pattern → Prop}
    (h : ∀ p ∈ ps, ∀ q, p.same q = true → R p q) (hsame : sameAll ps qs = true) :
    List.Forall₂ R ps qs := by
  have hboth := (List.forall₂_and_left ps qs).2 ⟨h, sameAll_iff_forall₂.1 hsame⟩
  exact hboth.imp fun p q hp => hp.1 q hp.2

theorem Equivalent.literal {v w : Value} (h : v.same w = true) :
    Equivalent (.literal v) (.literal w) := by
  have hequals := Value.same_iff_equals.1 h
  apply of_iff
  intro s
  cases s with
  | node kind slots span => simp [accepts]
  | empty => simp [accepts]
  | terminal u =>
      rw [accepts, accepts, Value.same_iff_equals, Value.same_iff_equals]
      exact ⟨hequals.symm.trans, hequals.trans⟩

/-- Patterns that are equal by value accept the same slots, zeros of both signs included. -/
theorem Equivalent.of_same (h : p.same q = true) : Equivalent p q := by
  induction p using members_induction generalizing q with
  | kind name =>
      cases q <;> simp only [same, beq_iff_eq, Bool.false_eq_true] at h
      exact h ▸ .refl _
  | any =>
      cases q <;> simp only [same, Bool.false_eq_true] at h
      exact .refl _
  | literal v =>
      cases q <;> simp only [same, Bool.false_eq_true] at h
      exact .literal h
  | children items arity ih =>
      cases q <;> simp only [same, Bool.and_eq_true, beq_iff_eq, Bool.false_eq_true] at h
      obtain ⟨rfl, hitems⟩ := h
      exact .children (forall₂_of_sameAll (fun p hp _ => ih p hp) hitems) arity
  | node name items arity ih =>
      cases q <;> simp only [same, Bool.and_eq_true, beq_iff_eq, Bool.false_eq_true] at h
      obtain ⟨⟨rfl, rfl⟩, hitems⟩ := h
      exact .node name (forall₂_of_sameAll (fun p hp _ => ih p hp) hitems) arity
  | oneOf members ih =>
      cases q <;> simp only [same, Bool.false_eq_true] at h
      exact .oneOf (forall₂_of_sameAll (fun p hp _ => ih p hp) h)
  | not inner ih =>
      cases q <;> simp only [same, Bool.false_eq_true] at h
      exact (ih h).not
  | anywhere inner ih =>
      cases q <;> simp only [same, Bool.false_eq_true] at h
      exact (ih h).anywhere

/-! ## Rewrites -/

/-- A pattern with one hole, at any depth. -/
inductive Context where
  | hole
  | children (before : List Pattern) (inner : Context) (after : List Pattern) (arity : Arity)
  | node (name : String) (before : List Pattern) (inner : Context) (after : List Pattern)
      (arity : Arity)
  | oneOf (before : List Pattern) (inner : Context) (after : List Pattern)
  | not (inner : Context)
  | anywhere (inner : Context)

def Context.fill : Context → Pattern → Pattern
  | .hole, p => p
  | .children before inner after arity, p => .children (before ++ inner.fill p :: after) arity
  | .node name before inner after arity, p =>
      .node name (before ++ inner.fill p :: after) arity
  | .oneOf before inner after, p => .oneOf (before ++ inner.fill p :: after)
  | .not inner, p => .not (inner.fill p)
  | .anywhere inner, p => .anywhere (inner.fill p)

inductive Rewrites : Pattern → Pattern → Prop where
  | permute {members members' : List Pattern} (h : members.Perm members') :
      Rewrites (.oneOf members) (.oneOf members')
  /-- Members go when an equal one stays: the same pattern, or one that is equal by value. -/
  | dedup {members kept : List Pattern} (hkept : kept.Sublist members)
      (h : ∀ p ∈ members, ∃ q ∈ kept, q = p ∨ q.same p = true) :
      Rewrites (.oneOf members) (.oneOf kept)
  | flatten (before inner after : List Pattern) :
      Rewrites (.oneOf (before ++ .oneOf inner :: after)) (.oneOf (before ++ inner ++ after))
  | unwrap (p : Pattern) : Rewrites (.oneOf [p]) p
  | not_not (p : Pattern) : Rewrites (.not (.not p)) p
  | anywhere_anywhere (p : Pattern) : Rewrites (.anywhere (.anywhere p)) (.anywhere p)
  | anywhere_oneOf (members : List Pattern) :
      Rewrites (.anywhere (.oneOf members)) (.oneOf (members.map .anywhere))

def Step (p q : Pattern) : Prop :=
  ∃ (c : Context) (l r : Pattern), Rewrites l r ∧ p = c.fill l ∧ q = c.fill r

namespace Equivalent

theorem permute (h : ps.Perm qs) : Equivalent (.oneOf ps) (.oneOf qs) :=
  ⟨.oneOf fun p hp => ⟨p, h.mem_iff.1 hp, .refl p⟩,
    .oneOf fun p hp => ⟨p, h.mem_iff.2 hp, .refl p⟩⟩

theorem dedup (hkept : qs.Sublist ps) (h : ∀ p ∈ ps, ∃ q ∈ qs, q = p ∨ q.same p = true) :
    Equivalent (.oneOf ps) (.oneOf qs) := by
  refine ⟨.oneOf fun p hp => ?_, .oneOf fun q hq => ⟨q, hkept.subset hq, .refl q⟩⟩
  obtain ⟨q, hq, hequal⟩ := h p hp
  rcases hequal with rfl | hsame
  · exact ⟨q, hq, .refl q⟩
  · exact ⟨q, hq, (of_same hsame).backward⟩

theorem flatten (before inner after : List Pattern) :
    Equivalent (.oneOf (before ++ .oneOf inner :: after)) (.oneOf (before ++ inner ++ after)) := by
  apply of_iff
  intro s
  simp only [accepts_oneOf_iff, List.mem_append, List.mem_cons, or_and_right, exists_or,
    exists_eq_left, or_assoc]

theorem unwrap (p : Pattern) : Equivalent (.oneOf [p]) p := by
  apply of_iff
  intro s
  simp only [accepts_oneOf_iff, List.mem_singleton, exists_eq_left]

theorem not_not (p : Pattern) : Equivalent (.not (.not p)) p := by
  apply of_iff
  intro s
  rw [accepts_not_iff, accepts_not_iff, Classical.not_not]

theorem anywhere_anywhere (p : Pattern) : Equivalent (.anywhere (.anywhere p)) (.anywhere p) := by
  apply of_iff
  intro s
  rw [accepts_anywhere_iff]
  constructor
  · rintro ⟨t, hreach, ht⟩
    obtain ⟨u, hreach', hu⟩ := accepts_anywhere_iff.1 ht
    exact accepts_anywhere_iff.2 ⟨u, hreach.trans hreach', hu⟩
  · intro hs
    exact ⟨s, .here s, hs⟩

theorem anywhere_oneOf (members : List Pattern) :
    Equivalent (.anywhere (.oneOf members)) (.oneOf (members.map .anywhere)) := by
  apply of_iff
  intro s
  rw [accepts_anywhere_iff, accepts_oneOf_iff]
  constructor
  · rintro ⟨t, hreach, ht⟩
    obtain ⟨p, hp, haccepts⟩ := accepts_oneOf_iff.1 ht
    exact ⟨.anywhere p, List.mem_map_of_mem hp, accepts_anywhere_iff.2 ⟨t, hreach, haccepts⟩⟩
  · rintro ⟨q, hq, haccepts⟩
    obtain ⟨p, hp, rfl⟩ := List.mem_map.1 hq
    obtain ⟨t, hreach, ht⟩ := accepts_anywhere_iff.1 haccepts
    exact ⟨t, hreach, accepts_oneOf_iff.2 ⟨p, hp, ht⟩⟩

theorem of_rewrites (h : Rewrites p q) : Equivalent p q := by
  cases h with
  | permute h => exact permute h
  | dedup hkept h => exact dedup hkept h
  | flatten before inner after => exact flatten before inner after
  | unwrap => exact unwrap q
  | not_not => exact not_not q
  | anywhere_anywhere p => exact anywhere_anywhere p
  | anywhere_oneOf members => exact anywhere_oneOf members

theorem amid (h : Equivalent p q) (before after : List Pattern) :
    List.Forall₂ Equivalent (before ++ p :: after) (before ++ q :: after) := by
  have hrefl : ∀ rs, List.Forall₂ Equivalent rs rs :=
    fun rs => List.forall₂_same.2 fun r _ => .refl r
  exact List.rel_append (hrefl before) (.cons h (hrefl after))

theorem fill (h : Equivalent p q) (c : Context) : Equivalent (c.fill p) (c.fill q) := by
  induction c with
  | hole => exact h
  | children before inner after arity ih => exact .children (ih.amid before after) arity
  | node name before inner after arity ih => exact .node name (ih.amid before after) arity
  | oneOf before inner after ih => exact .oneOf (ih.amid before after)
  | not inner ih => exact ih.not
  | anywhere inner ih => exact ih.anywhere

theorem of_steps (h : Relation.EqvGen Step p q) : Equivalent p q := by
  induction h with
  | rel p q hstep =>
      obtain ⟨c, l, r, hrewrites, rfl, rfl⟩ := hstep
      exact (of_rewrites hrewrites).fill c
  | refl p => exact refl p
  | symm p q _ ih => exact ih.symm
  | trans p q r _ _ ih ih' => exact ih.trans ih'

end Equivalent

/--
A rewrite in the hole of any pattern leaves what the whole pattern accepts as it is,
and so does any number of rewrites at any places, in either direction.
-/
theorem rewriting_keeps_matches :
    (∀ {l r : Pattern}, Rewrites l r → ∀ (c : Context) (s : Slot),
      (c.fill l).accepts s = (c.fill r).accepts s) ∧
      ∀ {p q : Pattern}, Relation.EqvGen Step p q → ∀ s, p.accepts s = q.accepts s :=
  ⟨fun h c => ((Equivalent.of_rewrites h).fill c).accepts_eq,
    fun h => (Equivalent.of_steps h).accepts_eq⟩

/-- A slot whose second slot, if it has one, does not lead to what is put into the hole. -/
def nowhereSecond : Context :=
  .not (.children [.any] (.anywhere .hole) [] .atLeast)

theorem accepts_nowhereSecond :
    let zero : Pattern := .literal (.float (.zero false))
    let zeros : Pattern := .oneOf [zero, .literal (.float (.zero true)), zero]
    let s : Slot :=
      .node "pair" [.empty, .node "number" [.terminal (.float (.zero true))] default] default
    Rewrites zeros (.oneOf [zero]) ∧ Relation.EqvGen Step (nowhereSecond.fill zeros)
        (nowhereSecond.fill zero) ∧
      (nowhereSecond.fill zeros).accepts s = false ∧
      (nowhereSecond.fill (.oneOf [zero])).accepts s = false ∧
      (nowhereSecond.fill zero).accepts s = false := by
  intro zero zeros s
  have hdedup : Rewrites zeros (.oneOf [zero]) := by
    refine .dedup (by simp) fun p hp => ⟨zero, List.mem_singleton_self zero, ?_⟩
    simp only [List.mem_cons, List.not_mem_nil, or_false] at hp
    rcases hp with rfl | rfl | rfl
    · exact .inl rfl
    · exact .inr (by decide)
    · exact .inl rfl
  have hsteps : Relation.EqvGen Step (nowhereSecond.fill zeros) (nowhereSecond.fill zero) :=
    .trans _ _ _ (.rel _ _ ⟨nowhereSecond, _, _, hdedup, rfl, rfl⟩)
      (.rel _ _ ⟨nowhereSecond, _, _, .unwrap zero, rfl, rfl⟩)
  have hzeros : (nowhereSecond.fill zeros).accepts s = false := by decide +kernel
  refine ⟨hdedup, hsteps, hzeros, ?_, ?_⟩
  · rw [← rewriting_keeps_matches.1 hdedup nowhereSecond s, hzeros]
  · rw [← rewriting_keeps_matches.2 hsteps s, hzeros]

end Pattern

end TreeLint

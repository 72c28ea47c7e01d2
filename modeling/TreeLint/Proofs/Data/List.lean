import Mathlib.Data.List.Forall2

/-!
# Lists in step and lists in blocks

Partners in lists that are related item by item, and prefixes of lists that are made of blocks.
-/

namespace TreeLint

theorem exists_of_forall₂ {α β : Type} {R : α → β → Prop} {xs : List α} {ys : List β}
    (h : List.Forall₂ R xs ys) {x : α} (hx : x ∈ xs) : ∃ y ∈ ys, R x y := by
  induction h with
  | nil => cases hx
  | cons hfirst _ ih =>
      rcases List.mem_cons.1 hx with rfl | hx
      · exact ⟨_, List.mem_cons_self, hfirst⟩
      · obtain ⟨y, hy, hrelated⟩ := ih hx
        exact ⟨y, List.mem_cons_of_mem _ hy, hrelated⟩

section Blocks

variable {α β : Type} {f : α → List β} {p : α → Bool} {q : β → Bool} {xs : List α}

/-- Blocks that pass as a whole or stop at their first item are taken as a whole. -/
theorem takeWhile_flatMap (hpass : ∀ x, p x = true → ∀ y ∈ f x, q y = true)
    (hstop : ∀ x, p x = false → ∃ y ys, f x = y :: ys ∧ q y = false) :
    (xs.flatMap f).takeWhile q = (xs.takeWhile p).flatMap f := by
  induction xs with
  | nil => rfl
  | cons x xs ih =>
      rw [List.flatMap_cons, List.takeWhile_cons]
      cases hx : p x with
      | true =>
          rw [List.takeWhile_append_of_pos (hpass x hx), ih]
          rfl
      | false =>
          obtain ⟨y, ys, hy, hq⟩ := hstop x hx
          simp [hy, hq]

theorem dropWhile_flatMap (hpass : ∀ x, p x = true → ∀ y ∈ f x, q y = true)
    (hstop : ∀ x, p x = false → ∃ y ys, f x = y :: ys ∧ q y = false) :
    (xs.flatMap f).dropWhile q = (xs.dropWhile p).flatMap f := by
  induction xs with
  | nil => rfl
  | cons x xs ih =>
      rw [List.flatMap_cons, List.dropWhile_cons]
      cases hx : p x with
      | true =>
          rw [List.dropWhile_append_of_pos (hpass x hx), ih]
          rfl
      | false =>
          obtain ⟨y, ys, hy, hq⟩ := hstop x hx
          simp [hy, hq]

end Blocks

end TreeLint

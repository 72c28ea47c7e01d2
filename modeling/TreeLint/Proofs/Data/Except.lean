import Mathlib.Data.List.Forall2

/-!
# Computations that may fail

When a computation that is made of others succeeds.
-/

namespace TreeLint

variable {α β ε : Type}

theorem exists_eq_ok {x : Except ε α} (h : x.isOk = true) : ∃ a, x = .ok a := by
  cases x with
  | error e => cases h
  | ok a => exact ⟨a, rfl⟩

theorem bind_eq_ok {x : Except ε α} {f : α → Except ε β} {b : β} :
    (x >>= f) = .ok b ↔ ∃ a, x = .ok a ∧ f a = .ok b := by
  cases x <;> simp [bind, Except.bind]

theorem mapM_eq_ok {f : α → Except ε β} {xs : List α} {ys : List β} :
    xs.mapM f = .ok ys ↔ List.Forall₂ (fun x y => f x = .ok y) xs ys := by
  induction xs generalizing ys with
  | nil =>
      rw [List.mapM_nil, List.forall₂_nil_left_iff]
      exact ⟨fun h => (Except.ok.inj h).symm, fun h => by rw [h]; rfl⟩
  | cons x xs ih =>
      rw [List.mapM_cons, bind_eq_ok, List.forall₂_cons_left_iff]
      constructor
      · rintro ⟨y, hy, h⟩
        obtain ⟨tail, htail, heq⟩ := bind_eq_ok.1 h
        cases heq
        exact ⟨y, tail, hy, ih.1 htail, rfl⟩
      · rintro ⟨y, tail, hy, htail, rfl⟩
        exact ⟨y, hy, bind_eq_ok.2 ⟨tail, ih.2 htail, rfl⟩⟩

end TreeLint

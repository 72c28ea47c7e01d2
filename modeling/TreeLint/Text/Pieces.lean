/-!
# Pieces of a text

A text, given by its characters or its bytes, is cut at every occurrence of one of them.
-/

namespace TreeLint

namespace Text

variable {α : Type} [DecidableEq α]

/-- The pieces between the separators; there is always at least one. -/
def pieces (separator : α) : List α → List (List α)
  | [] => [[]]
  | c :: cs =>
      if c = separator then [] :: pieces separator cs
      else
        match pieces separator cs with
        | [] => [[c]]
        | p :: ps => (c :: p) :: ps

theorem pieces_eq_splitOn (separator : α) (cs : List α) :
    pieces separator cs = cs.splitOn separator := by
  induction cs with
  | nil => rfl
  | cons c cs ih =>
      rw [List.splitOn_cons_eq_if_modifyHead, pieces, ih]
      by_cases hc : c = separator
      · simp [hc]
      · cases hps : cs.splitOn separator with
        | nil => exact absurd hps (List.splitOn_ne_nil separator cs)
        | cons p ps => simp [hc]

theorem pieces_ne_nil (separator : α) (cs : List α) : pieces separator cs ≠ [] := by
  rw [pieces_eq_splitOn]
  exact List.splitOn_ne_nil separator cs

theorem pieces_append_of_not_mem {separator : α} {xs : List α} (h : separator ∉ xs)
    (ys : List α) : pieces separator (xs ++ ys) = (pieces separator ys).modifyHead (xs ++ ·) := by
  obtain ⟨p, ps, hps⟩ := List.exists_cons_of_ne_nil (pieces_ne_nil separator ys)
  induction xs with
  | nil => simp [hps]
  | cons x xs ih =>
      rw [List.mem_cons, not_or] at h
      rw [List.cons_append, pieces, if_neg (Ne.symm h.1), ih h.2, hps]
      rfl

theorem not_mem_of_mem_pieces {separator : α} {cs p : List α}
    (h : p ∈ pieces separator cs) : separator ∉ p := by
  induction cs generalizing p with
  | nil =>
      rw [pieces, List.mem_singleton] at h
      simp [h]
  | cons c cs ih =>
      rw [pieces] at h
      split at h
      · rcases List.mem_cons.1 h with rfl | hp
        · exact List.not_mem_nil
        · exact ih hp
      · rename_i hc
        split at h
        · rw [List.mem_singleton] at h
          simp [h, Ne.symm hc]
        · rename_i q qs hpieces
          rw [hpieces] at ih
          rcases List.mem_cons.1 h with rfl | hp
          · rw [List.mem_cons, not_or]
            exact ⟨Ne.symm hc, ih List.mem_cons_self⟩
          · exact ih (List.mem_cons_of_mem q hp)

end Text

end TreeLint

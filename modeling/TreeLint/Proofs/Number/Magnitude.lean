import Mathlib.Algebra.Order.Field.Power
import Mathlib.Data.Rat.Lemmas
import Mathlib.Tactic.FieldSimp
import Mathlib.Tactic.Linarith
import Mathlib.Tactic.Positivity
import TreeLint.Syntax.Value

/-!
# The rational number of a double-precision number

Finite numbers as rational numbers.  A number other than zero has one
significand and one scale, so equality of values is equality of fields up to the
sign of zero.
-/

namespace TreeLint

namespace Binary64

variable {x y : Binary64}

def magnitude (x : Binary64) : ℚ :=
  x.significand * 2 ^ ((x.scale : ℤ) - 1075)

def value (x : Binary64) : ℚ :=
  if x.negative then -x.magnitude else x.magnitude

theorem significand_lt (x : Binary64) : x.significand < 2 ^ 53 := by
  have := x.fraction.isLt
  unfold significand
  split <;> omega

theorem le_significand (h : 1 < x.scale) : 2 ^ 52 ≤ x.significand := by
  have hne : x.exponent.val ≠ 0 := by
    intro hzero
    simp [scale, hzero] at h
  simp [significand, hne]

theorem scale_pos (x : Binary64) : 1 ≤ x.scale :=
  Nat.le_max_right _ _

theorem significand_eq_zero : x.significand = 0 ↔ x.isZero = true := by
  unfold significand isZero
  split
  · rename_i hzero
    simp [hzero]
  · rename_i hne
    simp [hne]

/-- The scale and the significand determine the fields behind the sign. -/
theorem fields_eq (hscale : x.scale = y.scale) (hsig : x.significand = y.significand) :
    x.exponent = y.exponent ∧ x.fraction = y.fraction := by
  have hx := x.fraction.isLt
  have hy := y.fraction.isLt
  unfold scale at hscale
  unfold significand at hsig
  simp only [Fin.ext_iff]
  split at hsig <;> split at hsig <;> omega

theorem magnitude_eq_zero : x.magnitude = 0 ↔ x.isZero = true := by
  rw [magnitude, mul_eq_zero, Nat.cast_eq_zero, significand_eq_zero, or_iff_left]
  positivity

theorem magnitude_nonneg (x : Binary64) : 0 ≤ x.magnitude := by
  unfold magnitude
  positivity

/-- Equal magnitudes in units of the smallest positive number. -/
theorem units_eq (h : x.magnitude = y.magnitude) :
    x.significand * 2 ^ x.scale = y.significand * 2 ^ y.scale := by
  simp only [magnitude, zpow_sub₀ (two_ne_zero' ℚ), zpow_natCast] at h
  field_simp at h
  exact_mod_cast h

/-- A larger scale means a significand that the smaller scale cannot hold. -/
theorem not_scale_lt (h : x.significand * 2 ^ x.scale = y.significand * 2 ^ y.scale) :
    ¬ x.scale < y.scale := by
  intro hlt
  obtain ⟨k, hk⟩ := Nat.exists_eq_add_of_lt hlt
  have hlow := le_significand (x := y) (by have := x.scale_pos; omega)
  have hhigh := x.significand_lt
  rw [hk, show x.scale + k + 1 = (k + 1) + x.scale by omega, Nat.pow_add, ← Nat.mul_assoc] at h
  have heq := Nat.eq_of_mul_eq_mul_right (by positivity) h
  have hpow : 2 ≤ 2 ^ (k + 1) := by
    rw [Nat.pow_succ]
    have := Nat.one_le_two_pow (n := k)
    omega
  have := Nat.mul_le_mul hlow hpow
  omega

theorem fields_eq_of_magnitude (h : x.magnitude = y.magnitude) :
    x.exponent = y.exponent ∧ x.fraction = y.fraction := by
  have hunits := units_eq h
  have hscale : x.scale = y.scale :=
    Nat.le_antisymm (Nat.not_lt.1 (not_scale_lt hunits.symm)) (Nat.not_lt.1 (not_scale_lt hunits))
  rw [hscale] at hunits
  exact fields_eq hscale (Nat.eq_of_mul_eq_mul_right (by positivity) hunits)

theorem value_eq_zero : x.value = 0 ↔ x.isZero = true := by
  unfold value
  split
  · rw [neg_eq_zero, magnitude_eq_zero]
  · rw [magnitude_eq_zero]

theorem abs_value (x : Binary64) : |x.value| = x.magnitude := by
  unfold value
  split
  · rw [abs_neg, abs_of_nonneg x.magnitude_nonneg]
  · rw [abs_of_nonneg x.magnitude_nonneg]

/-- Numbers other than zero with the same value are the same in all fields. -/
theorem eq_of_value (h : x.value = y.value) (hne : x.value ≠ 0) : x = y := by
  have hmagnitude : x.magnitude = y.magnitude := by
    rw [← x.abs_value, ← y.abs_value, h]
  have hpos : 0 < x.magnitude :=
    lt_of_le_of_ne x.magnitude_nonneg fun hzero =>
      hne (value_eq_zero.2 (magnitude_eq_zero.1 hzero.symm))
  have hsign : x.negative = y.negative := by
    unfold value at h
    rw [← hmagnitude] at h
    cases hx : x.negative <;> cases hy : y.negative <;> simp [hx, hy] at h ⊢ <;> linarith
  obtain ⟨hexponent, hfraction⟩ := fields_eq_of_magnitude hmagnitude
  cases x
  cases y
  simp_all

/-! ## Equality of numbers -/

/-- Finite numbers are equal by value and infinities by sign; NaN equals nothing. -/
def Equals (x y : Binary64) : Prop :=
  (x.isFinite ∧ y.isFinite ∧ x.value = y.value) ∨
    ∃ negative, x = infinity negative ∧ y = infinity negative

theorem not_isNaN_of_isFinite (h : x.isFinite = true) : x.isNaN = false := by
  simp only [isFinite, decide_eq_true_eq] at h
  simp only [isNaN, Bool.and_eq_false_iff, beq_eq_false_iff_ne]
  left
  omega

theorem isFinite_of_isZero (h : x.isZero = true) : x.isFinite = true := by
  simp only [isZero, Bool.and_eq_true, beq_iff_eq] at h
  simp [isFinite, h.1]

/-- A number is finite, infinite or NaN. -/
theorem eq_infinity (hnan : x.isNaN = false) (hinf : ¬ x.isFinite = true) :
    x = infinity x.negative := by
  obtain ⟨negative, exponent, fraction⟩ := x
  simp only [isFinite, decide_eq_true_eq] at hinf
  have hexponent : exponent = 2047 := Fin.ext (by have := exponent.isLt; omega)
  subst hexponent
  have hfraction : fraction.val = 0 := by simpa [isNaN] using hnan
  have hfraction : fraction = 0 := Fin.ext hfraction
  rw [hfraction]
  rfl

theorem same_iff_equals : x.same y = true ↔ x.Equals y := by
  simp only [same, Bool.and_eq_true, Bool.not_eq_true_eq_eq_false, Bool.or_eq_true, beq_iff_eq]
  constructor
  · rintro ⟨⟨hx, hy⟩, ⟨hzero, hzero'⟩ | rfl⟩
    · refine .inl ⟨isFinite_of_isZero hzero, isFinite_of_isZero hzero', ?_⟩
      rw [value_eq_zero.2 hzero, value_eq_zero.2 hzero']
    · by_cases hfinite : x.isFinite = true
      · exact .inl ⟨hfinite, hfinite, rfl⟩
      · exact .inr ⟨x.negative, eq_infinity hx hfinite, eq_infinity hx hfinite⟩
  · rintro (⟨hx, hy, hvalue⟩ | ⟨negative, rfl, rfl⟩)
    · refine ⟨⟨not_isNaN_of_isFinite hx, not_isNaN_of_isFinite hy⟩, ?_⟩
      by_cases hzero : x.value = 0
      · exact .inl ⟨value_eq_zero.1 hzero, value_eq_zero.1 (hvalue ▸ hzero)⟩
      · exact .inr (eq_of_value hvalue hzero)
    · exact ⟨⟨rfl, rfl⟩, .inr rfl⟩

theorem Equals.symm (h : x.Equals y) : y.Equals x := by
  rcases h with ⟨hx, hy, hvalue⟩ | ⟨negative, hx, hy⟩
  · exact .inl ⟨hy, hx, hvalue.symm⟩
  · exact .inr ⟨negative, hy, hx⟩

theorem Equals.trans {z : Binary64} (h : x.Equals y) (h' : y.Equals z) : x.Equals z := by
  rcases h with ⟨hx, hy, hvalue⟩ | ⟨negative, rfl, rfl⟩
  · rcases h' with ⟨-, hz, hvalue'⟩ | ⟨negative, rfl, -⟩
    · exact .inl ⟨hx, hz, hvalue.trans hvalue'⟩
    · exact absurd hy (by simp [isFinite, infinity])
  · rcases h' with ⟨hy, -, -⟩ | ⟨negative', hy, rfl⟩
    · exact absurd hy (by simp [isFinite, infinity])
    · exact .inr ⟨negative', hy, rfl⟩

end Binary64

end TreeLint

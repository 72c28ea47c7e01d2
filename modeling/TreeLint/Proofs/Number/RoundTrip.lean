import Mathlib.Tactic.Ring
import TreeLint.Proofs.Number.Digits
import TreeLint.Proofs.Number.Magnitude

/-!
# Numbers read back from their text

A ratio or a decimal that equals a finite number rounds to that number, so a
finite number is read back from the shortest text that is printed for it.
-/

namespace TreeLint

namespace Binary64

variable {x : Binary64} {num den : Nat}

/-! ## Ratios -/

/-- A ratio in units of the last place has the value of the ratio. -/
theorem inUnits_ratio (num den e : Nat) :
    (inUnits num den e).1 * (den * 2 ^ e) = num * 2 ^ 1075 * (inUnits num den e).2 := by
  unfold inUnits
  generalize 1075 = bias
  simp only [Nat.shiftLeft_eq]
  split
  · rename_i hle
    obtain ⟨k, rfl⟩ := Nat.exists_eq_add_of_le hle
    rw [Nat.add_sub_cancel_left, Nat.pow_add]
    ring
  · rename_i hgt
    obtain ⟨k, rfl⟩ := Nat.exists_eq_add_of_le (Nat.le_of_not_le hgt)
    rw [Nat.add_sub_cancel_left, Nat.pow_add]
    ring

theorem inUnits_den_pos (hden : 0 < den) (num e : Nat) : 0 < (inUnits num den e).2 := by
  unfold inUnits
  simp only [Nat.shiftLeft_eq]
  split <;> positivity

theorem fitsScale_iff (hden : 0 < den) (num e : Nat) :
    fitsScale num den e = true ↔ num * 2 ^ 1075 < 2 ^ 53 * (den * 2 ^ e) := by
  have hunit : 0 < den * 2 ^ e := by positivity
  have hpos := inUnits_den_pos hden num e
  rw [fitsScale, decide_eq_true_eq, Nat.shiftLeft_eq, ← Nat.mul_lt_mul_right hunit, inUnits_ratio]
  rw [show (inUnits num den e).2 * 2 ^ 53 * (den * 2 ^ e) =
    2 ^ 53 * (den * 2 ^ e) * (inUnits num den e).2 by ring, Nat.mul_lt_mul_right hpos]

section Exact

variable (hden : 0 < den) (hvalue : num * 2 ^ 1075 = x.significand * 2 ^ x.scale * den)

include hden hvalue

/-- The scale that is tried first is the right one or the one below it. -/
theorem log2_scale (hnum : num ≠ 0) :
    max 1 (num.log2 + 1022 - den.log2) = x.scale ∨
      (1 < x.scale ∧ max 1 (num.log2 + 1022 - den.log2) + 1 = x.scale) := by
  have hnumLow : 2 ^ num.log2 ≤ num := Nat.log2_self_le hnum
  have hnumHigh : num < 2 ^ (num.log2 + 1) := Nat.lt_log2_self
  have hdenLow : 2 ^ den.log2 ≤ den := Nat.log2_self_le (by omega)
  have hdenHigh : den < 2 ^ (den.log2 + 1) := Nat.lt_log2_self
  have hscale := x.scale_pos
  -- The bias gets a name, so that no tactic computes the power.
  obtain ⟨bias, hbias⟩ : ∃ bias, bias = 1075 := ⟨_, rfl⟩
  rw [← hbias] at hvalue
  have hupper : num.log2 + bias < 53 + x.scale + (den.log2 + 1) := by
    apply (Nat.pow_lt_pow_iff_right (a := 2) (by decide)).1
    calc 2 ^ (num.log2 + bias) = 2 ^ num.log2 * 2 ^ bias := Nat.pow_add ..
      _ ≤ num * 2 ^ bias := Nat.mul_le_mul_right _ hnumLow
      _ = x.significand * 2 ^ x.scale * den := hvalue
      _ < 2 ^ 53 * 2 ^ x.scale * 2 ^ (den.log2 + 1) :=
          Nat.mul_lt_mul'' (Nat.mul_lt_mul_of_pos_right x.significand_lt (Nat.two_pow_pos _))
            hdenHigh
      _ = 2 ^ (53 + x.scale + (den.log2 + 1)) := by rw [← Nat.pow_add, ← Nat.pow_add]
  by_cases hone : 1 < x.scale
  · have hlower : 52 + x.scale + den.log2 < num.log2 + 1 + bias := by
      apply (Nat.pow_lt_pow_iff_right (a := 2) (by decide)).1
      calc 2 ^ (52 + x.scale + den.log2) = 2 ^ 52 * 2 ^ x.scale * 2 ^ den.log2 := by
            rw [Nat.pow_add, Nat.pow_add]
        _ ≤ x.significand * 2 ^ x.scale * den :=
            Nat.mul_le_mul (Nat.mul_le_mul_right _ (le_significand hone)) hdenLow
        _ = num * 2 ^ bias := hvalue.symm
        _ < 2 ^ (num.log2 + 1) * 2 ^ bias :=
            Nat.mul_lt_mul_of_pos_right hnumHigh (Nat.two_pow_pos _)
        _ = 2 ^ (num.log2 + 1 + bias) := (Nat.pow_add ..).symm
    omega
  · left
    omega

/-- The scale of a ratio that equals a number is the scale of the number. -/
theorem scaleOf_eq (hnum : num ≠ 0) : scaleOf num den = x.scale := by
  have hfits : ∀ e, fitsScale num den e = true ↔ x.significand * 2 ^ x.scale < 2 ^ 53 * 2 ^ e := by
    intro e
    rw [fitsScale_iff hden, hvalue, ← Nat.mul_lt_mul_right hden (b := x.significand * 2 ^ x.scale)]
    rw [show 2 ^ 53 * (den * 2 ^ e) = 2 ^ 53 * 2 ^ e * den by ring]
  unfold scaleOf
  -- At its own scale the number fits, and one below it a normal number does not.
  rcases log2_scale hden hvalue hnum with heq | ⟨hone, heq⟩
  · have hyes : fitsScale num den x.scale = true := by
      rw [hfits]
      gcongr
      exact x.significand_lt
    simp only [heq, hyes, if_true]
  · have hno : ¬ fitsScale num den (max 1 (num.log2 + 1022 - den.log2)) = true := by
      rw [hfits, ← heq, Nat.not_lt]
      have hlow := le_significand hone
      calc 2 ^ 53 * 2 ^ max 1 (num.log2 + 1022 - den.log2)
          = 2 ^ 52 * 2 ^ (max 1 (num.log2 + 1022 - den.log2) + 1) := by ring
        _ ≤ _ := by gcongr
    simp only [hno, Bool.false_eq_true, if_false, heq]

end Exact

theorem roundHalfEven_mul {b : Nat} (hb : 0 < b) (a : Nat) : roundHalfEven (a * b) b = a := by
  simp [roundHalfEven, Nat.mul_div_cancel _ hb, hb]

/-- A finite number is built back from its scale and significand. -/
theorem ofCode_eq (hfinite : x.isFinite = true) :
    ofCode x.negative (((x.scale - 1) <<< 52) + x.significand) = x := by
  have hexponent : x.exponent.val < 2047 := by simpa [isFinite] using hfinite
  have hfraction := x.fraction.isLt
  have hcode : ((x.scale - 1) <<< 52) + x.significand =
      x.exponent.val * 0x10000000000000 + x.fraction.val := by
    rw [Nat.shiftLeft_eq]
    unfold scale significand
    split <;> omega
  have hdiv : (x.exponent.val * 0x10000000000000 + x.fraction.val) / 0x10000000000000 =
      x.exponent.val := by omega
  have hmod : (x.exponent.val * 0x10000000000000 + x.fraction.val) % 0x10000000000000 =
      x.fraction.val := by omega
  rw [hcode, ofCode, dif_pos (by omega)]
  simp only [hdiv, hmod]

/-- A ratio that equals a finite number other than zero rounds to it. -/
theorem ofRatio_eq (hfinite : x.isFinite = true) (hzero : x.isZero = false) (hden : 0 < den)
    (hvalue : num * 2 ^ 1075 = x.significand * 2 ^ x.scale * den) :
    ofRatio x.negative num den = x := by
  have hsig : x.significand ≠ 0 := by
    rw [ne_eq, significand_eq_zero, hzero]
    simp
  have hnum : num ≠ 0 := by
    rintro rfl
    rw [Nat.zero_mul] at hvalue
    have : 0 < x.significand * 2 ^ x.scale * den := by positivity
    omega
  have hunits : (inUnits num den x.scale).1 = x.significand * (inUnits num den x.scale).2 := by
    apply Nat.eq_of_mul_eq_mul_right (show 0 < den * 2 ^ x.scale by positivity)
    rw [inUnits_ratio, hvalue]
    ring
  rw [ofRatio, if_neg hnum]
  simp only [scaleOf_eq hden hvalue hnum, hunits, roundHalfEven_mul (inUnits_den_pos hden _ _)]
  exact ofCode_eq hfinite

end Binary64

namespace Decimal

variable {d : Decimal}

/-! ## Decimals -/

def value (d : Decimal) : ℚ :=
  d.digits * 10 ^ d.exponent

theorem value_normalize (d : Decimal) : d.normalize.value = d.value := by
  obtain ⟨k, hdigits, hexponent⟩ := stripZeros_spec d.digits d.exponent
  have hcast : (d.digits : ℚ) = d.normalize.digits * 10 ^ k := by exact_mod_cast hdigits
  rw [value, value, hcast, normalize, hexponent, zpow_add₀ (by norm_num), zpow_natCast]
  ring

theorem digits_pos_of_value (h : 0 < d.value) : 0 < d.digits := by
  by_contra hzero
  rw [value, Nat.eq_zero_of_not_pos hzero] at h
  simp at h

theorem ratio_den_pos (d : Decimal) : 0 < d.ratio.2 := by
  unfold ratio
  simp only [Nat.pow_eq]
  split <;> positivity

theorem ratio_eq_value (d : Decimal) : (d.ratio.1 : ℚ) = d.value * d.ratio.2 := by
  unfold ratio value
  split
  · rename_i hle
    obtain ⟨k, hk⟩ := Int.eq_ofNat_of_zero_le hle
    simp [hk]
  · rename_i hlt
    obtain ⟨k, hk⟩ : ∃ k : Nat, d.exponent = -(k : ℤ) := ⟨(-d.exponent).toNat, by omega⟩
    simp [hk]

theorem value_lt_pow_point (d : Decimal) : d.value < 10 ^ d.point := by
  have hlength : d.digits < 10 ^ (Nat.toDigits 10 d.digits).length :=
    (Nat.length_toDigits_le_iff (by decide) Nat.length_toDigits_pos).1 (Nat.le_refl _)
  have hcast : (d.digits : ℚ) < 10 ^ (Nat.toDigits 10 d.digits).length := by exact_mod_cast hlength
  rw [value, point, zpow_add₀ (by norm_num), zpow_natCast]
  exact mul_lt_mul_of_pos_right hcast (by positivity)

theorem pow_point_le_value (hpos : 0 < d.digits) : 10 ^ (d.point - 1) ≤ d.value := by
  obtain ⟨k, hk⟩ : ∃ k, (Nat.toDigits 10 d.digits).length = k + 1 :=
    Nat.exists_eq_succ_of_ne_zero (Nat.pos_iff_ne_zero.1 Nat.length_toDigits_pos)
  have hlength : 10 ^ k ≤ d.digits := by
    rcases Nat.eq_zero_or_pos k with rfl | hpos'
    · exact hpos
    · rw [← Nat.not_lt, ← Nat.length_toDigits_le_iff (by decide) hpos']
      omega
  have hcast : (10 : ℚ) ^ k ≤ d.digits := by exact_mod_cast hlength
  rw [value, point, hk, show ((k + 1 : Nat) : ℤ) + d.exponent - 1 = k + d.exponent by omega,
    zpow_add₀ (by norm_num), zpow_natCast]
  exact mul_le_mul_of_nonneg_right hcast (by positivity)

end Decimal

namespace Binary64

open Decimal

variable {x : Binary64} {d : Decimal}

theorem magnitude_lt (hfinite : x.isFinite = true) : x.magnitude < 10 ^ (310 : ℤ) := by
  have hexponent : x.exponent.val < 2047 := by simpa [isFinite] using hfinite
  have hscale : (x.scale : ℤ) - 1075 ≤ 971 := by
    unfold scale
    omega
  have hsig : (x.significand : ℚ) < 2 ^ (53 : ℤ) := by exact_mod_cast x.significand_lt
  have hpow : (2 : ℚ) ^ (1024 : ℤ) ≤ 10 ^ (310 : ℤ) := by
    exact_mod_cast (by decide +kernel : 2 ^ 1024 ≤ 10 ^ 310)
  calc x.magnitude < 2 ^ (53 : ℤ) * 2 ^ ((x.scale : ℤ) - 1075) :=
        mul_lt_mul_of_pos_right hsig (by positivity)
    _ ≤ 2 ^ (53 : ℤ) * 2 ^ (971 : ℤ) :=
        mul_le_mul_of_nonneg_left (zpow_le_zpow_right₀ (by norm_num) hscale) (by positivity)
    _ = 2 ^ (1024 : ℤ) := (zpow_add₀ (by norm_num) 53 971).symm
    _ ≤ 10 ^ (310 : ℤ) := hpow

theorem le_magnitude (hzero : x.isZero = false) : 10 ^ (-330 : ℤ) ≤ x.magnitude := by
  have hscale : (-1074 : ℤ) ≤ (x.scale : ℤ) - 1075 := by
    have := x.scale_pos
    omega
  have hsig : (1 : ℚ) ≤ x.significand := by
    have hne : x.significand ≠ 0 := by
      rw [ne_eq, significand_eq_zero, hzero]
      simp
    exact_mod_cast Nat.one_le_iff_ne_zero.2 hne
  have hpow : (2 : ℚ) ^ (1074 : ℤ) ≤ 10 ^ (330 : ℤ) := by
    exact_mod_cast (by decide +kernel : 2 ^ 1074 ≤ 10 ^ 330)
  calc (10 : ℚ) ^ (-330 : ℤ) ≤ 2 ^ (-1074 : ℤ) := by
        rw [zpow_neg, zpow_neg]
        exact inv_anti₀ (by positivity) hpow
    _ ≤ 1 * 2 ^ ((x.scale : ℤ) - 1075) := by
        rw [one_mul]
        exact zpow_le_zpow_right₀ (by norm_num) hscale
    _ ≤ x.magnitude := mul_le_mul_of_nonneg_right hsig (by positivity)

/-- A decimal that equals a finite number other than zero is nearest to it. -/
theorem ofDecimal_eq (hfinite : x.isFinite = true) (hzero : x.isZero = false)
    (hvalue : d.value = x.magnitude) : ofDecimal x.negative d = x := by
  rw [← value_normalize] at hvalue
  have hlow := le_magnitude hzero
  have hhigh := magnitude_lt hfinite
  rw [← hvalue] at hlow hhigh
  have hpos : 0 < d.normalize.digits :=
    digits_pos_of_value (lt_of_lt_of_le (by positivity) hlow)
  have hpoint : d.normalize.point - 1 < 310 :=
    (zpow_lt_zpow_iff_right₀ (by norm_num : (1 : ℚ) < 10)).1
      (lt_of_le_of_lt (pow_point_le_value hpos) hhigh)
  have hpoint' : -330 < d.normalize.point :=
    (zpow_lt_zpow_iff_right₀ (by norm_num : (1 : ℚ) < 10)).1
      (lt_of_le_of_lt hlow (value_lt_pow_point _))
  have hratio : d.normalize.ratio.1 * 2 ^ 1075 =
      x.significand * 2 ^ x.scale * d.normalize.ratio.2 := by
    have hunits : x.magnitude * 2 ^ (1075 : ℤ) = x.significand * 2 ^ x.scale := by
      rw [magnitude, mul_assoc, ← zpow_add₀ (by norm_num), sub_add_cancel, zpow_natCast]
    apply Nat.cast_injective (R := ℚ)
    simp only [Nat.cast_mul, Nat.cast_pow, Nat.cast_ofNat]
    rw [ratio_eq_value, hvalue, mul_right_comm, ← zpow_ofNat, hunits]
  -- None of the shortcuts for numbers far out of range is taken.
  unfold ofDecimal
  simp only
  rw [if_neg (by omega), if_neg (by omega), if_neg (by omega)]
  exact ofRatio_eq hfinite hzero (ratio_den_pos _) hratio

/-! ## The printed text -/

theorem exact_value (x : Binary64) : x.exact.value = x.magnitude := by
  unfold exact Decimal.value magnitude
  simp only [Nat.shiftLeft_eq, Nat.pow_eq]
  split
  · rename_i hle
    obtain ⟨k, hk⟩ := Nat.exists_eq_add_of_le hle
    rw [show (x.scale : ℤ) - 1075 = k by omega, hk, Nat.add_sub_cancel_left]
    simp
  · rename_i hgt
    obtain ⟨k, hk⟩ := Nat.exists_eq_add_of_le (Nat.le_of_not_le hgt)
    rw [show (x.scale : ℤ) - 1075 = -(k : ℤ) by omega, show 1075 - x.scale = k by omega]
    have hten : (10 : ℚ) ^ k = 5 ^ k * 2 ^ k := by
      rw [← mul_pow]
      norm_num
    simp only [Nat.cast_mul, Nat.cast_pow, Nat.cast_ofNat, zpow_neg, zpow_natCast, hten]
    field_simp

/-- A candidate is taken only if it reads back. -/
theorem ofDecimal_candidate? {num den n : Nat} {point : Int}
    (h : candidate? x num den point n = some d) : ofDecimal x.negative d = x := by
  simp only [candidate?] at h
  split at h
  · rename_i hbelow habove
    rw [beq_iff_eq] at hbelow habove
    split at h
    · rwa [← Option.some.inj h]
    · rwa [← Option.some.inj h]
  · rename_i hbelow habove
    rw [beq_iff_eq] at hbelow
    rwa [← Option.some.inj h]
  · rename_i hbelow habove
    rw [beq_iff_eq] at habove
    rwa [← Option.some.inj h]
  · cases h

theorem ofDecimal_congr {d' : Decimal} (h : d.normalize = d'.normalize) (negative : Bool) :
    ofDecimal negative d = ofDecimal negative d' := by
  unfold ofDecimal
  rw [h]

/-- The shortest decimal of a finite number is nearest to it. -/
theorem ofDecimal_shortest (hfinite : x.isFinite = true) (hzero : x.isZero = false) :
    ofDecimal x.negative x.shortest = x := by
  unfold shortest
  -- Nothing depends on which ratio the candidates come from.
  obtain ⟨num, den⟩ := x.ratio
  simp only
  cases hfound : (List.range 17).findSome? fun n =>
      candidate? x num den (pointOf num den) (n + 1) with
  | some d =>
      obtain ⟨n, hn⟩ := List.exists_of_findSome?_eq_some hfound
      exact ofDecimal_candidate? hn.2
  | none =>
      apply ofDecimal_eq hfinite hzero
      rw [value_normalize, exact_value]

theorem digits_pos_of_ofDecimal (hzero : x.isZero = false) (h : ofDecimal x.negative d = x) :
    0 < d.digits := by
  apply digits_pos_of_normalize
  apply Nat.pos_of_ne_zero
  intro hdigits
  simp only [ofDecimal, hdigits, if_true] at h
  rw [← h] at hzero
  simp [isZero, zero] at hzero

theorem eq_zero_of_isZero (hzero : x.isZero = true) : x = zero x.negative := by
  obtain ⟨negative, exponent, fraction⟩ := x
  simp only [isZero, Bool.and_eq_true, beq_iff_eq] at hzero
  obtain ⟨hexponent, hfraction⟩ := hzero
  simp only [zero, mk.injEq, true_and]
  exact ⟨Fin.ext hexponent, Fin.ext hfraction⟩

/-- The text of a finite number is a sign and a decimal text that is nearest to the number. -/
theorem chars_spelled (hfinite : x.isFinite = true) :
    ∃ cs d, x.chars = (if x.negative then ['-'] else []) ++ cs ∧ Spelled cs d ∧
      ofDecimal x.negative d = x := by
  have hnan := not_isNaN_of_isFinite hfinite
  cases hzero : x.isZero with
  | true =>
      have hspelled : Spelled (['0'] ++ ['.', '0']) ⟨0, -1⟩ :=
        .fraction .zero .zero
      refine ⟨_, _, ?_, hspelled, ?_⟩
      · simp [chars, hnan, hfinite, hzero]
      · rw [eq_zero_of_isZero hzero]
        simp [ofDecimal, Decimal.normalize, stripZeros, zero]
  | false =>
      have hshortest := ofDecimal_shortest hfinite hzero
      obtain ⟨d, hspelled, hsame⟩ := decimalText_spelled (digits_pos_of_ofDecimal hzero hshortest)
      refine ⟨_, d, ?_, hspelled, ?_⟩
      · simp [chars, hnan, hfinite, hzero]
      · rw [ofDecimal_congr hsame, hshortest]

/-- A finite number is read back from its text. -/
theorem read?_chars (hfinite : x.isFinite = true) : read? x.chars = some x := by
  obtain ⟨cs, d, htext, hspelled, hnearest⟩ := chars_spelled hfinite
  rw [htext, read?_of_spelled x.negative hspelled, hnearest]

end Binary64

end TreeLint

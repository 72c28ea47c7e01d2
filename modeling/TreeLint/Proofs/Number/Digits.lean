import Mathlib.Algebra.Group.Nat.Defs
import TreeLint.Number.Shortest

/-!
# Digits read back

Digits that are written in a radix are read back in it, an integer of 64 bits
is read back from its decimal text, and the text of a positive decimal is read
back as the same decimal number.
-/

namespace TreeLint

/-! ## Numerals -/

structure IsNumeral (ds : List Char) : Prop where
  ne_nil : ds ≠ []
  isDigit : ∀ c ∈ ds, c.isDigit = true

namespace IsNumeral

variable {ds : List Char}

theorem zero : IsNumeral ['0'] :=
  ⟨by simp, by simp⟩

theorem toDigits (n : Nat) : IsNumeral (Nat.toDigits 10 n) :=
  ⟨Nat.toDigits_ne_nil, fun _ hc => Nat.isDigit_of_mem_toDigits (by decide) (by decide) hc⟩

theorem zeros_append (h : IsNumeral ds) (k : Nat) : IsNumeral (List.replicate k '0' ++ ds) := by
  refine ⟨by simp [h.ne_nil], fun c hc => ?_⟩
  rcases List.mem_append.1 hc with hzero | hmem
  · exact zero.isDigit c (by simp [List.eq_of_mem_replicate hzero])
  · exact h.isDigit c hmem

theorem append_zeros (h : IsNumeral ds) (k : Nat) : IsNumeral (ds ++ List.replicate k '0') := by
  refine ⟨by simp [h.ne_nil], fun c hc => ?_⟩
  rcases List.mem_append.1 hc with hmem | hzero
  · exact h.isDigit c hmem
  · exact zero.isDigit c (by simp [List.eq_of_mem_replicate hzero])

theorem take (h : IsNumeral ds) {k : Nat} (hk : 0 < k) : IsNumeral (ds.take k) := by
  refine ⟨?_, fun c hc => h.isDigit c (List.mem_of_mem_take hc)⟩
  rw [ne_eq, List.take_eq_nil_iff]
  rintro (hzero | hnil)
  · omega
  · exact h.ne_nil hnil

theorem drop (h : IsNumeral ds) {k : Nat} (hk : k < ds.length) : IsNumeral (ds.drop k) := by
  refine ⟨?_, fun c hc => h.isDigit c (List.mem_of_mem_drop hc)⟩
  rw [ne_eq, List.drop_eq_nil_iff]
  omega

theorem head (h : IsNumeral ds) (rest : List Char) :
    ∃ c tail, ds ++ rest = c :: tail ∧ c.isDigit = true := by
  obtain ⟨c, tail, rfl⟩ := List.exists_cons_of_ne_nil h.ne_nil
  exact ⟨c, tail ++ rest, rfl, h.isDigit c (by simp)⟩

theorem underscore_not_mem (h : IsNumeral ds) : '_' ∉ ds := by
  intro hmem
  have hdigit := h.isDigit '_' hmem
  simp at hdigit

end IsNumeral

namespace Integer

/-! ## Integers -/

theorem foldDigits?_append (radix acc : Nat) (cs ds : List Char) :
    foldDigits? radix acc (cs ++ ds) =
      (foldDigits? radix acc cs).bind fun n => foldDigits? radix n ds := by
  induction cs generalizing acc with
  | nil => rfl
  | cons c cs ih =>
      simp only [List.cons_append, foldDigits?]
      cases digitBelow? radix c with
      | none => rfl
      | some d => exact ih _

/-- Digits below ten are decimal digits and the next six are letters. -/
theorem digitValue?_digitChar : ∀ d < 16, digitValue? d.digitChar = some d := by
  decide

theorem toNat_toLower_of_isUpper {c : Char} (hc : c.isUpper = true) :
    65 ≤ c.toNat ∧ c.toNat ≤ 90 ∧ c.toLower.toNat = c.toNat + 32 := by
  unfold Char.isUpper at hc
  obtain ⟨hlow, hhigh⟩ : 65 ≤ c.toNat ∧ c.toNat ≤ 90 := by
    simpa [UInt32.le_iff_toNat_le] using hc
  refine ⟨hlow, hhigh, ?_⟩
  unfold Char.toLower
  rw [dif_pos (by simpa using hc)]
  have hsum : (c.val + 32).toNat = (c.toNat + 32) % 2 ^ 32 := UInt32.toNat_add _ _
  exact hsum.trans (Nat.mod_eq_of_lt (by omega))

theorem toLower_of_not_isUpper {c : Char} (hc : ¬ c.isUpper = true) : c.toLower = c := by
  unfold Char.isUpper at hc
  unfold Char.toLower
  rw [dif_neg (by simpa using hc)]

/-- Letters of either case have the same value. -/
theorem digitValue?_toLower (c : Char) : digitValue? c.toLower = digitValue? c := by
  by_cases hupper : c.isUpper = true
  · obtain ⟨hlow, hhigh, hlower⟩ := toNat_toLower_of_isUpper hupper
    unfold digitValue?
    rw [hlower]
    simp only [Bool.and_eq_true, decide_eq_true_eq]
    rw [if_neg (by omega), if_pos (by omega), if_neg (by omega), if_neg (by omega),
      if_pos (by omega)]
    congr 1
  · rw [toLower_of_not_isUpper hupper]

theorem digitBelow?_digitChar {radix d : Nat} (hd : d < radix) (hradix : radix ≤ 16) :
    digitBelow? radix d.digitChar = some d := by
  rw [digitBelow?, digitValue?_digitChar d (by omega)]
  simp [hd]

theorem foldDigits?_toDigits {radix : Nat} (hone : 1 < radix) (hradix : radix ≤ 16) (n : Nat) :
    foldDigits? radix 0 (Nat.toDigits radix n) = some n := by
  induction n using Nat.base_induction radix hone with
  | single d hd =>
      rw [Nat.toDigits_of_lt_base hd]
      simp [foldDigits?, digitBelow?_digitChar hd hradix]
  | digit n d hd hn ih =>
      rw [← Nat.toDigits_append_toDigits hone hn hd, foldDigits?_append, ih,
        Nat.toDigits_of_lt_base hd]
      simp [foldDigits?, digitBelow?_digitChar hd hradix, Nat.mul_comm]

/-- A natural number is read back from its digits in any radix up to sixteen. -/
theorem readNat?_toDigits {radix : Nat} (hone : 1 < radix) (hradix : radix ≤ 16) (n : Nat) :
    readNat? radix (Nat.toDigits radix n) = some n := by
  rw [readNat?, foldDigits?_toDigits hone hradix]
  simp

/-- Text whose first character is no sign has no sign. -/
theorem splitSign_of_head {c : Char} {cs : List Char} (hminus : c ≠ '-') (hplus : c ≠ '+') :
    splitSign (c :: cs) = (false, c :: cs) := by
  unfold splitSign
  split <;> simp_all

theorem ne_of_isDigit {c d : Char} (hc : c.isDigit = true) (hd : d.isDigit = false) : c ≠ d := by
  rintro rfl
  simp [hc] at hd

/-- Text that begins with a digit has no sign. -/
theorem splitSign_of_digit {c : Char} {cs : List Char} (hc : c.isDigit = true) :
    splitSign (c :: cs) = (false, c :: cs) :=
  splitSign_of_head (ne_of_isDigit hc (by decide)) (ne_of_isDigit hc (by decide))

theorem splitSign_toDigits (n : Nat) :
    splitSign (Nat.toDigits 10 n) = (false, Nat.toDigits 10 n) := by
  obtain ⟨c, cs, h, hc⟩ := (IsNumeral.toDigits n).head []
  rw [List.append_nil] at h
  rw [h, splitSign_of_digit hc]

theorem chars_eq (n : Int) :
    chars n = (if decide (n < 0) then ['-'] else []) ++ Nat.toDigits 10 n.natAbs := by
  unfold chars
  by_cases h : n < 0
  · simp [h]
  · simp [h]

theorem underscore_not_mem_chars (n : Int) : '_' ∉ chars n := by
  unfold chars
  split
  · simp
  · simp

theorem splitSign_chars (n : Int) :
    splitSign (chars n) = (decide (n < 0), Nat.toDigits 10 n.natAbs) := by
  unfold chars
  split
  · rename_i h
    simp [splitSign, h]
  · rename_i h
    simp [splitSign_toDigits, h]

theorem toWord?_toInt (n : Int64) : toWord? n.toInt = some n := by
  have hlow : -0x8000000000000000 ≤ n.toInt := n.le_toInt
  have hhigh : n.toInt < 0x8000000000000000 := n.toInt_lt
  rw [toWord?, if_pos (by simp only [Bool.and_eq_true, decide_eq_true_eq]; exact ⟨hlow, hhigh⟩),
    Int64.ofInt_toInt]

/-- The sign and the absolute value determine the integer. -/
theorem signed_natAbs (n : Int) :
    (if decide (n < 0) then -(n.natAbs : Int) else n.natAbs) = n := by
  by_cases h : n < 0
  · rw [if_pos (decide_eq_true h)]
    omega
  · rw [if_neg (by simp [h])]
    omega

/-- An integer of 64 bits is read back from its decimal text. -/
theorem read?_chars (n : Int64) : read? 10 (chars n.toInt) = some n := by
  simp only [read?, splitSign_chars, @readNat?_toDigits 10 (by decide) (by decide),
    Option.bind_some, signed_natAbs, toWord?_toInt]

end Integer

namespace Decimal

/-! ## Decimal text -/

/-- Decimal text: digits, then a fraction or an exponent or both. -/
inductive Spelled : List Char → Decimal → Prop
  | fraction {whole part : List Char} (hwhole : IsNumeral whole) (hpart : IsNumeral part) :
      Spelled (whole ++ '.' :: part) ⟨Nat.ofDigitChars 10 (whole ++ part) 0, -part.length⟩
  | exponent {whole : List Char} (hwhole : IsNumeral whole) (e : Int) :
      Spelled (whole ++ 'e' :: Integer.chars e) ⟨Nat.ofDigitChars 10 whole 0, e⟩
  | both {whole part : List Char} (hwhole : IsNumeral whole) (hpart : IsNumeral part) (e : Int) :
      Spelled (whole ++ '.' :: (part ++ 'e' :: Integer.chars e))
        ⟨Nat.ofDigitChars 10 (whole ++ part) 0, e - part.length⟩

theorem Spelled.head {cs : List Char} {d : Decimal} (h : Spelled cs d) :
    ∃ c rest, cs = c :: rest ∧ c.isDigit = true := by
  cases h with
  | fraction hwhole hpart => exact hwhole.head _
  | exponent hwhole e => exact hwhole.head _
  | both hwhole hpart e => exact hwhole.head _

theorem Spelled.underscore_not_mem {cs : List Char} {d : Decimal} (h : Spelled cs d) :
    '_' ∉ cs := by
  cases h with
  | fraction hwhole hpart => simp [hwhole.underscore_not_mem, hpart.underscore_not_mem]
  | exponent hwhole e =>
      simp [hwhole.underscore_not_mem, Integer.underscore_not_mem_chars e]
  | both hwhole hpart e =>
      simp [hwhole.underscore_not_mem, hpart.underscore_not_mem,
        Integer.underscore_not_mem_chars e]

/-! ## Trailing zeros -/

theorem stripZeros_mul_pow {n : Nat} (hn : 0 < n) (k : Nat) (e : Int) :
    stripZeros (n * 10 ^ k) e = stripZeros n (e + k) := by
  induction k generalizing e with
  | zero => simp
  | succ k ih =>
      have hpos : 0 < n * 10 ^ k := Nat.mul_pos hn (Nat.pow_pos (by decide))
      have hsplit : n * 10 ^ (k + 1) = n * 10 ^ k * 10 := by
        rw [Nat.pow_succ, Nat.mul_assoc]
      rw [hsplit, stripZeros, dif_pos ⟨by omega, by omega⟩, Nat.mul_div_cancel _ (by decide), ih]
      congr 1
      omega

/-- The digits lose some number of zeros, and the exponent gains as many. -/
theorem stripZeros_spec (n : Nat) (e : Int) :
    ∃ k : Nat, n = (stripZeros n e).digits * 10 ^ k ∧ (stripZeros n e).exponent = e + k := by
  fun_induction stripZeros n e with
  | case1 n e h ih =>
      obtain ⟨k, hdigits, hexponent⟩ := ih
      refine ⟨k + 1, ?_, ?_⟩
      · rw [Nat.pow_succ, ← Nat.mul_assoc, ← hdigits]
        omega
      · rw [hexponent]
        omega
  | case2 n e h => exact ⟨0, by simp, by simp⟩

theorem digits_pos_of_normalize {d : Decimal} (h : 0 < d.normalize.digits) : 0 < d.digits := by
  obtain ⟨k, hdigits, -⟩ := stripZeros_spec d.digits d.exponent
  rw [hdigits]
  exact Nat.mul_pos h (Nat.pow_pos (by decide))

end Decimal

namespace Binary64

open Decimal

/-! ## Reading decimal text -/

theorem splitDigits_append {ds rest : List Char} (hds : IsNumeral ds)
    (hrest : ∀ c ∈ rest.head?, c.isDigit = false) : splitDigits (ds ++ rest) = (ds, rest) := by
  unfold splitDigits
  rw [List.takeWhile_append_of_pos hds.isDigit, List.dropWhile_append_of_pos hds.isDigit]
  cases rest with
  | nil => simp
  | cons c cs => simp [hrest c rfl]

theorem readExponent?_chars (e : Int) : readExponent? (Integer.chars e) = some e := by
  have hdigits := IsNumeral.toDigits e.natAbs
  have hall : (Nat.toDigits 10 e.natAbs).all Char.isDigit = true :=
    List.all_eq_true.2 hdigits.isDigit
  have hnonempty : (Nat.toDigits 10 e.natAbs).isEmpty = false := by simp
  simp only [readExponent?, Integer.splitSign_chars, hall, hnonempty, Bool.not_true, Bool.or_self,
    Bool.false_eq_true, if_false, Nat.ofDigitChars_ten_toDigits, Integer.signed_natAbs]

/-- Decimal text is read as the decimal it spells. -/
theorem readDecimal?_of_spelled {cs : List Char} {d : Decimal} (h : Spelled cs d) :
    readDecimal? cs = some d := by
  unfold readDecimal?
  cases h with
  | @fraction whole part hwhole hpart =>
      have hend : splitDigits (part ++ []) = (part, []) := splitDigits_append hpart (by simp)
      rw [List.append_nil] at hend
      rw [splitDigits_append hwhole (by simp)]
      simp [splitFraction, hend, hwhole.ne_nil]
  | @exponent whole hwhole e =>
      rw [splitDigits_append hwhole (by simp)]
      simp [splitFraction, hwhole.ne_nil, readExponent?_chars]
  | @both whole part hwhole hpart e =>
      rw [splitDigits_append hwhole (by simp)]
      simp only [splitFraction]
      rw [splitDigits_append hpart (by simp)]
      simp [hwhole.ne_nil, readExponent?_chars]

theorem toLower_of_isDigit {c : Char} (hc : c.isDigit = true) : c.toLower = c := by
  refine Integer.toLower_of_not_isUpper fun hupper => ?_
  have hletter := (Integer.toNat_toLower_of_isUpper hupper).1
  have hdigit := (Char.isDigit_iff_toNat.1 hc).2
  simp at hdigit
  omega

/-- Text that begins with a digit is no word that begins otherwise. -/
theorem ofList_toLower_ne {c : Char} {cs : List Char} (hc : c.isDigit = true) {word : String}
    (hword : ∀ d ∈ word.toList.head?, d.isDigit = false) :
    String.ofList ((c :: cs).map Char.toLower) ≠ word := by
  rintro rfl
  simp [toLower_of_isDigit hc, hc] at hword

/-- A sign and a decimal text are read as the number nearest to the decimal. -/
theorem read?_of_spelled (negative : Bool) {cs : List Char} {d : Decimal} (h : Spelled cs d) :
    read? ((if negative then ['-'] else []) ++ cs) = some (ofDecimal negative d) := by
  have hread := readDecimal?_of_spelled h
  obtain ⟨c, rest, rfl, hc⟩ := h.head
  have hsign : Integer.splitSign ((if negative then ['-'] else []) ++ c :: rest) =
      (negative, c :: rest) := by
    cases negative with
    | true => rfl
    | false => exact Integer.splitSign_of_digit hc
  have hinf : String.ofList ((c :: rest).map Char.toLower) ≠ "inf" :=
    ofList_toLower_ne hc (by simp)
  have hinfinity : String.ofList ((c :: rest).map Char.toLower) ≠ "infinity" :=
    ofList_toLower_ne hc (by simp)
  have hnan : String.ofList ((c :: rest).map Char.toLower) ≠ "nan" :=
    ofList_toLower_ne hc (by simp)
  simp only [read?, hsign, hinf, hinfinity, hnan, decide_false, Bool.or_self, Bool.false_eq_true,
    if_false, hread, Option.map_some]

/-! ## Writing decimal text -/

section Writing

variable {ds : List Char} (hds : IsNumeral ds)

include hds

/-- Zeros and then all digits behind the point. -/
theorem spelled_behind (k : Nat) :
    Spelled (['0', '.'] ++ List.replicate k '0' ++ ds)
      ⟨Nat.ofDigitChars 10 ds 0, -((k + ds.length : Nat) : Int)⟩ := by
  have hvalue : Nat.ofDigitChars 10 (['0'] ++ (List.replicate k '0' ++ ds)) 0 =
      Nat.ofDigitChars 10 ds 0 := by
    simp [Nat.ofDigitChars_append, Nat.ofDigitChars_cons]
  have hspelled := Spelled.fraction .zero (hds.zeros_append k)
  rw [hvalue, List.length_append, List.length_replicate] at hspelled
  simpa using hspelled

/-- The point among the digits. -/
theorem spelled_among {k : Nat} (hk : 0 < k) (hlt : k < ds.length) :
    Spelled (ds.take k ++ '.' :: ds.drop k)
      ⟨Nat.ofDigitChars 10 ds 0, -((ds.length - k : Nat) : Int)⟩ := by
  have hspelled := Spelled.fraction (hds.take hk) (hds.drop hlt)
  rw [List.take_append_drop, List.length_drop] at hspelled
  exact hspelled

/-- All digits and then zeros before the point. -/
theorem spelled_before (k : Nat) :
    Spelled (ds ++ List.replicate k '0' ++ ['.', '0'])
      ⟨Nat.ofDigitChars 10 ds 0 * 10 ^ (k + 1), -1⟩ := by
  have hvalue : Nat.ofDigitChars 10 ((ds ++ List.replicate k '0') ++ ['0']) 0 =
      Nat.ofDigitChars 10 ds 0 * 10 ^ (k + 1) := by
    rw [List.append_assoc, ← List.replicate_succ', Nat.ofDigitChars_append,
      Nat.ofDigitChars_replicate_zero, Nat.mul_comm]
  have hspelled := Spelled.fraction (hds.append_zeros k) .zero
  rw [hvalue] at hspelled
  exact hspelled

/-- Positional text spells the digits with the point at the given place. -/
theorem positional_spelled (point : Int) (hpos : 0 < Nat.ofDigitChars 10 ds 0) :
    ∃ d, Spelled (positional ds point) d ∧
      d.normalize = (Decimal.mk (Nat.ofDigitChars 10 ds 0) (point - ds.length)).normalize := by
  unfold positional
  split
  · rename_i hle
    refine ⟨_, spelled_behind hds _, ?_⟩
    congr 2
    omega
  · split
    · rename_i hgt hlt
      refine ⟨_, spelled_among hds (by omega) (by omega), ?_⟩
      congr 2
      omega
    · rename_i hgt hge
      refine ⟨_, spelled_before hds _, ?_⟩
      show stripZeros (_ * 10 ^ _) (-1) = stripZeros _ (point - ds.length)
      rw [stripZeros_mul_pow hpos]
      congr 1
      omega

/-- Scientific text spells the digits with the point at the given place. -/
theorem scientific_spelled (point : Int) :
    Spelled (scientific ds point) ⟨Nat.ofDigitChars 10 ds 0, point - ds.length⟩ := by
  have hlength : 0 < ds.length := List.length_pos_iff.2 hds.ne_nil
  unfold scientific
  split
  · rename_i hle
    have htake : ds.take 1 = ds := List.take_of_length_le hle
    rw [htake, List.append_nil, show point - ds.length = point - 1 by omega]
    exact .exponent hds _
  · rename_i hgt
    have hspelled :=
      Spelled.both (hds.take Nat.one_pos) (hds.drop (Nat.lt_of_not_le hgt)) (point - 1)
    rw [List.take_append_drop, List.length_drop,
      show point - 1 - ((ds.length - 1 : Nat) : Int) = point - ds.length by omega] at hspelled
    simpa using hspelled

end Writing

/-- The text of a positive decimal spells the same decimal number. -/
theorem decimalText_spelled {d : Decimal} (hpos : 0 < d.digits) :
    ∃ d', Spelled (decimalText d) d' ∧ d'.normalize = d.normalize := by
  have hdigits := IsNumeral.toDigits d.digits
  have hexponent : d.point - (Nat.toDigits 10 d.digits).length = d.exponent := by
    unfold point
    omega
  unfold decimalText
  split
  · have h := positional_spelled hdigits d.point (by simpa using hpos)
    rwa [Nat.ofDigitChars_ten_toDigits, hexponent] at h
  · have h := scientific_spelled hdigits d.point
    rw [Nat.ofDigitChars_ten_toDigits, hexponent] at h
    exact ⟨d, h, rfl⟩

end Binary64

end TreeLint

import Mathlib.Data.Nat.Digits.Defs
import Mathlib.Tactic.Ring
import TreeLint.Proofs.Number.Digits

/-!
# Numbers by their digits

What digits denote in positional notation, and that an integer is read as the
number that its digits denote, or not at all if a word of 64 bits cannot hold it.
-/

namespace TreeLint

namespace Integer

def digitAlphabet : List Char :=
  "0123456789abcdef".toList

/-- The value of a digit, letters in either case; sixteen for any other character. -/
def digitNumber (c : Char) : Nat :=
  digitAlphabet.idxOf c.toLower

/-- The number that digits denote in a radix, the most significant digit first. -/
def numeralValue (radix : Nat) (digits : List Char) : Nat :=
  Nat.ofDigits radix (digits.map digitNumber).reverse

structure IsNumeralIn (radix : Nat) (digits : List Char) : Prop where
  ne_nil : digits ≠ []
  digit : ∀ c ∈ digits, digitNumber c < radix

theorem isNumeralIn_iff {radix : Nat} {digits : List Char} :
    IsNumeralIn radix digits ↔
      digits ≠ [] ∧ (digits.all fun c => digitNumber c < radix) = true := by
  simp only [List.all_eq_true, decide_eq_true_eq]
  exact ⟨fun h => ⟨h.ne_nil, h.digit⟩, fun h => ⟨h.1, h.2⟩⟩

instance (radix : Nat) (digits : List Char) : Decidable (IsNumeralIn radix digits) :=
  decidable_of_iff' _ isNumeralIn_iff

theorem numeralValue_cons (radix : Nat) (c : Char) (digits : List Char) :
    numeralValue radix (c :: digits) =
      digitNumber c * radix ^ digits.length + numeralValue radix digits := by
  rw [numeralValue, List.map_cons, Nat.ofDigits_reverse_cons, List.length_map, numeralValue]
  ring

theorem toLower_mem_digitAlphabet {c : Char} (h : digitNumber c < 16) :
    c.toLower ∈ digitAlphabet :=
  List.idxOf_lt_length_iff.1 h

theorem digitValue?_of_mem {d : Char} (hd : d ∈ digitAlphabet) :
    digitValue? d = some (digitAlphabet.idxOf d) := by
  have hall : (digitAlphabet.all fun d => digitValue? d == some (digitAlphabet.idxOf d)) =
      true := by decide +kernel
  exact eq_of_beq (List.all_eq_true.1 hall d hd)

theorem digitBelow?_of_lt {radix : Nat} (hradix : radix ≤ 16) {c : Char}
    (hc : digitNumber c < radix) : digitBelow? radix c = some (digitNumber c) := by
  have hmem := toLower_mem_digitAlphabet (Nat.lt_of_lt_of_le hc hradix)
  rw [digitBelow?, ← digitValue?_toLower, digitValue?_of_mem hmem]
  exact Option.filter_some_pos (decide_eq_true hc)

theorem digitNumber_of_isDigit {c : Char} (hc : c.isDigit = true) : digitNumber c < 10 := by
  have hrange : 48 ≤ c.toNat ∧ c.toNat ≤ 57 := Char.isDigit_iff_toNat.1 hc
  have hdecimal : ∀ n < 10, digitNumber (Char.ofNat (48 + n)) < 10 := by decide +kernel
  have hlt := hdecimal (c.toNat - 48) (by omega)
  rwa [show 48 + (c.toNat - 48) = c.toNat by omega, Char.ofNat_toNat] at hlt

/-- Digits continue a number by their value. -/
theorem foldDigits?_eq {radix : Nat} (hradix : radix ≤ 16) {digits : List Char}
    (hdigits : ∀ c ∈ digits, digitNumber c < radix) (acc : Nat) :
    foldDigits? radix acc digits =
      some (acc * radix ^ digits.length + numeralValue radix digits) := by
  induction digits generalizing acc with
  | nil => simp [foldDigits?, numeralValue]
  | cons c digits ih =>
      have hc := digitBelow?_of_lt hradix (hdigits c List.mem_cons_self)
      rw [foldDigits?, hc]
      simp only
      rw [ih (fun d hd => hdigits d (List.mem_cons_of_mem c hd)), numeralValue_cons,
        List.length_cons]
      congr 1
      ring

namespace IsNumeralIn

variable {radix : Nat} {digits : List Char}

theorem readNat? (h : IsNumeralIn radix digits) (hradix : radix ≤ 16) :
    Integer.readNat? radix digits = some (numeralValue radix digits) := by
  rw [Integer.readNat?, foldDigits?_eq hradix h.digit]
  simp [h.ne_nil]

/-- No digit is one of the given characters. -/
theorem ne_of_mem (h : IsNumeralIn radix digits) (hradix : radix ≤ 16) {c d : Char}
    (hc : c ∈ digits) (hd : d.toLower ∉ digitAlphabet) : c ≠ d := by
  rintro rfl
  exact hd (toLower_mem_digitAlphabet (Nat.lt_of_lt_of_le (h.digit c hc) hradix))

theorem splitSign (h : IsNumeralIn radix digits) (hradix : radix ≤ 16) :
    Integer.splitSign digits = (false, digits) := by
  obtain ⟨c, tail, rfl⟩ := List.exists_cons_of_ne_nil h.ne_nil
  exact splitSign_of_head (h.ne_of_mem hradix List.mem_cons_self (by decide +kernel))
    (h.ne_of_mem hradix List.mem_cons_self (by decide +kernel))

/-- Digits with an optional minus sign are read as the number they denote. -/
theorem read? (h : IsNumeralIn radix digits) (hradix : radix ≤ 16) (negative : Bool) :
    Integer.read? radix ((if negative then ['-'] else []) ++ digits) =
      toWord? (if negative then -(numeralValue radix digits : Int)
        else numeralValue radix digits) := by
  have hsign : Integer.splitSign ((if negative then ['-'] else []) ++ digits) =
      (negative, digits) := by
    cases negative with
    | true => rfl
    | false => exact h.splitSign hradix
  simp only [Integer.read?, hsign, h.readNat? hradix, Option.bind_some]

end IsNumeralIn

/-- An integer that a word of 64 bits can hold is the value of one. -/
theorem exists_toWord? {n : Int} (hlow : -2 ^ 63 ≤ n) (hhigh : n ≤ 2 ^ 63 - 1) :
    ∃ w : Int64, toWord? n = some w ∧ w.toInt = n := by
  refine ⟨Int64.ofInt n, ?_, ?_⟩
  · rw [toWord?, if_pos]
    simp only [Bool.and_eq_true, decide_eq_true_eq]
    omega
  · exact Int64.toInt_ofInt_of_le hlow (by omega)

theorem toWord?_eq_none {n : Int} (h : ¬ (-2 ^ 63 ≤ n ∧ n ≤ 2 ^ 63 - 1)) : toWord? n = none := by
  rw [toWord?, if_neg]
  simp only [Bool.and_eq_true, decide_eq_true_eq]
  omega

end Integer

end TreeLint

/-
# Magnitudes of numerals

A numeral with the digits of `d` and the exponent `e` writes `d * 10 ^ e`.  It stands
for the nearest binary number with 53 significant bits, unless it is too large: then
it stands for no finite number.

* `roundToBits_of_lt` : a number of few bits is its own nearest;
* `isFinite_ofNat_iff`, `isFinite_negSucc_iff` : the numerals that are not too large.
-/
import Eponym.Text.FixedPoint

namespace Eponym.Data

open Text

/-- The bound that whole numbers in a machine word stay below. -/
def wordLimit : Nat := twoPow 64

/-- The least number that is not nearest to a finite one.  It lies half-way between the
largest finite number and the next power of two. -/
def finiteLimit : Nat := twoPow 1024 - twoPow 970

/-! ## Rounding -/

/-- The number with at most the given number of significant bits nearest to `n`. -/
def roundToBits (bits n : Nat) : Nat :=
  let unit := twoPow (n.log2 + 1 - bits)
  roundHalfEven n unit * unit

/-- A number that has at most the given number of bits is not changed. -/
theorem roundToBits_of_lt {bits n : Nat} (h : n < twoPow bits) : roundToBits bits n = n := by
  rcases Nat.eq_zero_or_pos n with rfl | hp
  · simp [roundToBits, roundHalfEven]
  · have hn : n.log2 + 1 - bits = 0 := by
      have := (Nat.log2_lt (by omega)).2 h
      omega
    have := roundHalfEven_mul n (twoPow_pos 0)
    simp_all [roundToBits, twoPow]

/-! ## Finite numbers -/

/-- Whether `d * 10 ^ e` is nearest to a finite number.  No power is taken that is larger
than the answer needs. -/
def isFinite (d : Nat) : Int → Bool
  | .ofNat k => d = 0 || (k < 309 && d * tenPow k < finiteLimit)
  | .negSucc k => d < finiteLimit * tenPow (min (k + 1) d.log2)

/-- Every power of ten from the 309th on is too large. -/
theorem finiteLimit_le_tenPow {k : Nat} (h : 309 ≤ k) : finiteLimit ≤ tenPow k := by
  have hl : finiteLimit ≤ tenPow 200 * tenPow 109 := by decide +kernel
  have hk : tenPow 109 ≤ tenPow (k - 200) := Nat.pow_le_pow_right (by omega) (by omega)
  rw [show k = 200 + (k - 200) from by omega, tenPow_add]
  exact Nat.le_trans hl (Nat.mul_le_mul_left _ hk)

/-- A numeral without a fraction is too large from the limit on. -/
theorem isFinite_ofNat_iff {d k : Nat} :
    isFinite d (.ofNat k) = true ↔ d * tenPow k < finiteLimit := by
  have hl : 0 < finiteLimit := by decide +kernel
  simp only [isFinite, Bool.or_eq_true, Bool.and_eq_true, decide_eq_true_eq]
  constructor
  · rintro (rfl | h)
    · simpa using hl
    · exact h.2
  · intro h
    rcases Nat.eq_zero_or_pos d with hd | hd
    · exact .inl hd
    · refine .inr ⟨?_, h⟩
      by_cases hk : 309 ≤ k
      · have := Nat.le_mul_of_pos_left (tenPow k) hd
        have := finiteLimit_le_tenPow hk
        omega
      · omega

/-- A numeral with a fraction is too large if it is from the limit on. -/
theorem isFinite_negSucc_iff {d k : Nat} :
    isFinite d (.negSucc k) = true ↔ d < finiteLimit * tenPow (k + 1) := by
  have hl : 2 ≤ finiteLimit := by decide +kernel
  simp only [isFinite, decide_eq_true_eq]
  by_cases hk : k + 1 ≤ d.log2
  · rw [Nat.min_eq_left hk]
  · have hd : d < finiteLimit * tenPow d.log2 := by
      have h₁ : d < twoPow d.log2 * 2 := Nat.lt_log2_self
      have h₂ : twoPow d.log2 ≤ tenPow d.log2 := Nat.pow_le_pow_left (by omega) _
      have h₃ : 2 * tenPow d.log2 ≤ finiteLimit * tenPow d.log2 := Nat.mul_le_mul_right _ hl
      omega
    have hp : tenPow d.log2 ≤ tenPow (k + 1) := Nat.pow_le_pow_right (by omega) (by omega)
    rw [Nat.min_eq_right (by omega)]
    exact ⟨fun h => Nat.lt_of_lt_of_le h (Nat.mul_le_mul_left _ hp), fun _ => hd⟩

end Eponym.Data

/-
# Quotients with a fixed number of decimals

A rate is kept as a binary number with 53 significant bits and printed with a fixed
number of places after the point.  Either time it is rounded to the nearest number of
that form; one that lies half-way goes to the even neighbour.

* `tenPow_add` : exponents add up;
* `roundHalfEven_mul` : a whole quotient is kept;
* `two_mul_roundHalfEven` : the rounded quotient is within one half.
-/

namespace Eponym.Text

/-! ## Powers -/

/-- The power of two with the given exponent. -/
def twoPow (k : Nat) : Nat := Nat.pow 2 k

/-- The power of ten with the given exponent. -/
def tenPow (k : Nat) : Nat := Nat.pow 10 k

theorem twoPow_pos (k : Nat) : 0 < twoPow k := Nat.pow_pos (by omega)

theorem tenPow_add (j k : Nat) : tenPow (j + k) = tenPow j * tenPow k := Nat.pow_add 10 j k

/-! ## Rounding -/

/-- The whole number nearest to `num / den`, a tie going to the even one. -/
def roundHalfEven (num den : Nat) : Nat :=
  let q := num / den
  let r := num % den
  if 2 * r < den then q else if den < 2 * r then q + 1 else q + q % 2

theorem roundHalfEven_mul (k : Nat) {den : Nat} (h : 0 < den) :
    roundHalfEven (k * den) den = k := by
  simp [roundHalfEven, h]

/-- Twice the rounded quotient lies within one unit of twice the quotient. -/
theorem two_mul_roundHalfEven (num : Nat) {den : Nat} (h : 0 < den) :
    2 * num ≤ 2 * roundHalfEven num den * den + den ∧
      2 * roundHalfEven num den * den ≤ 2 * num + den := by
  have hd := Nat.div_add_mod num den
  have hr := Nat.mod_lt num h
  have hm : num / den % 2 = 0 ∨ num / den % 2 = 1 := by omega
  have e (k : Nat) : 2 * k * den = 2 * (den * k) := by rw [Nat.mul_assoc, Nat.mul_comm k]
  simp only [roundHalfEven, e]
  split
  · omega
  · split
    · rw [Nat.mul_add]; omega
    · rcases hm with hm | hm <;> rw [hm] <;> simp only [Nat.mul_add] <;> omega

/-! ## Quotients -/

/-- The text of `n / 10 ^ places`, all places written. -/
def fixedPoint (places n : Nat) : String :=
  let fraction := toString (n % tenPow places)
  toString (n / tenPow places) ++ "." ++
    String.ofList (List.replicate (places - fraction.length) '0') ++ fraction

/-- The power of two that, times `num / den`, has the given number of bits in front of
the point. -/
def binaryPlaces (bits num den : Nat) : Nat :=
  let places := bits + den.log2 - num.log2
  if num * twoPow places / den < twoPow bits then places else places - 1

/-- The binary number with the given number of significant bits nearest to `num / den`, as a
numerator and a power of two under it. -/
def binary (bits num den : Nat) : Nat × Nat :=
  let places := binaryPlaces bits num den
  (roundHalfEven (num * twoPow places) den, twoPow places)

/-- The text of the quotient `num / den` with the given number of places. -/
def ratio (places num den : Nat) : String :=
  let (n, power) := binary 53 num den
  fixedPoint places (roundHalfEven (n * tenPow places) power)

example : ratio 6 1 3 = "0.333333" := by decide +kernel
example : ratio 6 1 128 = "0.007812" := by decide +kernel
example : ratio 6 3 3 = "1.000000" := by decide +kernel

end Eponym.Text

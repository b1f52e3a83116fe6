import Flipbook.Number.Scalar
import Mathlib.Algebra.Order.Floor.Ring
import Mathlib.Analysis.Real.Sqrt

/-!
# Real numbers

Real numbers as numbers to shade with. Roots are exact here, which they are not over the rational
numbers.
-/

namespace Flipbook.Number

/-- The integer obtained by dropping the fraction. -/
noncomputable def wholeReal (x : ℝ) : Int :=
  if 0 ≤ x then ⌊x⌋ else ⌈x⌉

noncomputable instance : GridNumber ℝ where
  trunc x := wholeReal x
  toInt := wholeReal
  ofInt n := n
  isFinite _ := true
  keep := id

noncomputable instance : ShadingNumber ℝ where
  sqrt := Real.sqrt
  fifthPower x := x ^ 5

theorem wholeReal_natCast (n : Nat) : wholeReal n = n := by
  rw [wholeReal, if_pos (Nat.cast_nonneg n), Int.floor_natCast]

end Flipbook.Number

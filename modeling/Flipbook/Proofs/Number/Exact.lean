import Flipbook.Number.Scalar
import Mathlib.Algebra.Order.Floor.Ring
import Mathlib.Data.Rat.Floor

/-!
# Exact numbers

Rational numbers as numbers to draw with. What is written over any kind of number is read without
rounding when it is read over them.
-/

namespace Flipbook.Number

/-- The integer obtained by dropping the fraction. -/
def wholeRat (x : ℚ) : Int :=
  if 0 ≤ x then ⌊x⌋ else ⌈x⌉

instance : GridNumber ℚ where
  trunc x := wholeRat x
  toInt := wholeRat
  ofInt n := n
  isFinite _ := true
  keep := id

instance : Widening ℚ ℚ where
  widen x := x
  narrow x := x

@[simp] theorem wholeRat_intCast (n : Int) : wholeRat n = n := by
  rw [wholeRat, Int.floor_intCast, Int.ceil_intCast, ite_self]

theorem wholeRat_mono {x y : ℚ} (le : x ≤ y) : wholeRat x ≤ wholeRat y := by
  unfold wholeRat
  split
  · next pos =>
    rw [if_pos (pos.trans le)]
    exact Int.floor_mono le
  · next neg =>
    have below : ⌈x⌉ ≤ 0 := Int.ceil_le.mpr (by exact_mod_cast (not_le.mp neg).le)
    split
    · next pos => exact below.trans (Int.floor_nonneg.mpr pos)
    · exact Int.ceil_mono le

/-- A number from 0 to an integer is over the pixels from 0 to that integer. -/
theorem wholeRat_within {x : ℚ} {n : Int} (low : 0 ≤ x) (high : x ≤ n) :
    0 ≤ wholeRat x ∧ wholeRat x ≤ n := by
  rw [wholeRat, if_pos low]
  exact ⟨Int.floor_nonneg.mpr low, Int.cast_le.mp ((Int.floor_le x).trans high)⟩

/-! ### The greater and the lesser -/

section

variable {α : Type} [LinearOrder α]

theorem greater_eq_max (a b : α) : greater a b = max a b := by
  rcases lt_or_ge a b with less | le
  · rw [greater, if_pos less, max_eq_right less.le]
  · rw [greater, if_neg (not_lt.mpr le), if_pos le_rfl, max_eq_left le]

theorem lesser_eq_min (a b : α) : lesser a b = min a b := by
  rcases lt_or_ge b a with less | le
  · rw [lesser, if_pos less, min_eq_right less.le]
  · rw [lesser, if_neg (not_lt.mpr le), if_pos le_rfl, min_eq_left le]

end

end Flipbook.Number

import Flipbook.Number.Scalar
import Mathlib.Algebra.Order.Ring.Int
import Mathlib.Data.Nat.Cast.Order.Ring
import Mathlib.Data.Prod.Lex
import Mathlib.Order.Compare

/-!
# The order of binary32 numbers

Numbers are compared by sign, exponent and mantissa, and NaN with nothing. Apart from NaN this is
a total order that takes the two zeros for one: `compare_rank` reads it off a lexicographic rank, so
its laws are those of the integers.
-/

namespace Flipbook.Number

open Float.Model (UnpackedFloat)
open Float.Model.UnpackedFloat (Sign)

/-- The place of a number in the order, from minus infinity to infinity. -/
def rank : UnpackedFloat → ℤ ×ₗ ℤ ×ₗ ℤ
  | .infinity .negative => toLex (-2, toLex (0, 0))
  | .finite .negative mantissa exponent _ => toLex (-1, toLex (-exponent, -(mantissa : ℤ)))
  | .zero _ | .notANumber => toLex (0, toLex (0, 0))
  | .finite .positive mantissa exponent _ => toLex (1, toLex (exponent, (mantissa : ℤ)))
  | .infinity .positive => toLex (2, toLex (0, 0))

theorem rank_zero (s : Sign) : rank (.zero s) = toLex (0, toLex (0, 0)) := rfl

theorem rank_negative {m : ℕ} {e : ℤ} {pos : 0 < m} :
    rank (.finite .negative m e pos) = toLex (-1, toLex (-e, -(m : ℤ))) := rfl

theorem rank_positive {m : ℕ} {e : ℤ} {pos : 0 < m} :
    rank (.finite .positive m e pos) = toLex (1, toLex (e, (m : ℤ))) := rfl

theorem compare_natCast (m n : ℕ) : compare (m : ℤ) n = compare m n := by
  rw [← cmp_eq_compare, ← cmp_eq_compare]
  exact Nat.strictMono_cast.cmp_map_eq m n

theorem compare_neg (a b : ℤ) : compare (-a) (-b) = (compare a b).swap := by
  rw [Int.compare_swap, ← cmp_eq_compare, ← cmp_eq_compare]
  exact StrictAnti.cmp_map_eq (fun _ _ => neg_lt_neg) a b

theorem compare_rank {a b : UnpackedFloat} (ha : a.isNaN = false) (hb : b.isNaN = false) :
    a.compare b = some (compare (rank a) (rank b)) := by
  rcases a with s | _ | s | ⟨s, m, e, hm⟩
  · rcases b with t | _ | t | ⟨t, n, f, hn⟩
    · cases s <;> cases t <;> rfl
    · cases hb
    · cases s <;> rfl
    · cases s <;> cases t <;> rfl
  · cases ha
  · rcases b with t | _ | t | ⟨t, n, f, hn⟩
    · cases t <;> rfl
    · cases hb
    · rfl
    · cases t <;> rfl
  · rcases b with t | _ | t | ⟨t, n, f, hn⟩
    · cases s <;> cases t <;> rfl
    · cases hb
    · cases s <;> rfl
    · cases s <;> cases t
      · -- Below zero both exponent and mantissa count downwards.
        show some ((compare e f).then (compare m n)).swap =
          some ((compare (-e) (-f)).then (compare (-(m : ℤ)) (-(n : ℤ))))
        rw [compare_neg, compare_neg, compare_natCast, Ordering.swap_then]
      · rfl
      · rfl
      · show some ((compare e f).then (compare m n)) =
          some ((compare e f).then (compare (m : ℤ) (n : ℤ)))
        rw [compare_natCast]

section

variable {x y z : Float32} (hx : x.isNaN = false) (hy : y.isNaN = false) (hz : z.isNaN = false)
include hx hy

theorem lt_iff_rank : x < y ↔ rank x.toModel.unpack < rank y.toModel.unpack := by
  rw [← compare_lt_iff_lt (a := rank x.toModel.unpack)]
  show decide (x.toModel.unpack.lt y.toModel.unpack = true) = true ↔ _
  rw [decide_eq_true_iff, UnpackedFloat.lt, compare_rank hx hy]
  simp

theorem le_iff_rank : x ≤ y ↔ rank x.toModel.unpack ≤ rank y.toModel.unpack := by
  rw [← compare_le_iff_le (a := rank x.toModel.unpack)]
  show decide (x.toModel.unpack.le y.toModel.unpack = true) = true ↔ _
  rw [decide_eq_true_iff, UnpackedFloat.le, compare_rank hx hy]
  simp [Ordering.isLE_iff_ne_gt]

theorem beq_iff_rank : (x == y) = true ↔ rank x.toModel.unpack = rank y.toModel.unpack := by
  rw [← compare_eq_iff_eq (a := rank x.toModel.unpack)]
  show (x.toModel.unpack.compare y.toModel.unpack == some .eq) = true ↔ _
  rw [compare_rank hx hy]
  simp

theorem not_lt_iff_le : ¬ x < y ↔ y ≤ x := by
  rw [lt_iff_rank hx hy, le_iff_rank hy hx, not_lt]

theorem le_of_lt_of_numeric (xy : x < y) : x ≤ y := by
  rw [lt_iff_rank hx hy] at xy
  rw [le_iff_rank hx hy]
  exact xy.le

/-- Numbers that are equal where they are compared: the same number, or two zeros. -/
theorem beq_iff_le_and_le : (x == y) = true ↔ x ≤ y ∧ y ≤ x := by
  rw [beq_iff_rank hx hy, le_iff_rank hx hy, le_iff_rank hy hx]
  exact le_antisymm_iff

include hz

theorem le_trans_of_numeric (xy : x ≤ y) (yz : y ≤ z) : x ≤ z := by
  rw [le_iff_rank hx hy] at xy
  rw [le_iff_rank hy hz] at yz
  rw [le_iff_rank hx hz]
  exact xy.trans yz

end

theorem le_refl_of_numeric {x : Float32} (hx : x.isNaN = false) : x ≤ x :=
  (le_iff_rank hx hx).mpr le_rfl

end Flipbook.Number

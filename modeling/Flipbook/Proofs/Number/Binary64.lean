import Flipbook.Proofs.Number.Binary32

/-!
# Binary64 numbers as rational numbers

The wider arithmetic of clipping. Far from its greatest number an operation misses the exact result by
a rounding only (`Nearly`). Binary32 numbers are wide numbers too, and a wide number is rounded on its
way back (`RoundsTo.narrow`).
-/

namespace Flipbook.Number

open Float.Model (Format UnpackedFloat)

/-! ### Values -/

/-- The rational number that a finite wide number stands for. -/
def wideValue (x : Float) : ℚ :=
  amount x.toModel.unpack

theorem exponents64 : Format.binary64.minExponent ≤ topExponent .binary64 := by decide

/-- Far less than the greatest finite wide number, as its reciprocal is far more than the least. -/
def ample : ℚ := 2 ^ 200

theorem ample_le_greatest : ample ≤ greatest .binary64 :=
  calc ample = 1 * 2 ^ (200 : ℤ) := (one_mul _).symm
    _ ≤ (2 ^ 53 - 1) * 2 ^ (971 : ℤ) :=
      mul_le_mul (by norm_num) (zpow_le_zpow_right₀ one_le_two (by decide)) (by positivity)
        (by norm_num)

/-- A finite wide number that misses `x` by one rounding. -/
structure Nearly (x : ℚ) (y : Float) : Prop where
  finite : y.isFinite = true
  error : |wideValue y - x| ≤ |x| / 2 ^ 53 + 1 / ample

/-- A wide number that an operation with the exact result `x` gives. -/
def RoundsToWide (x : ℚ) (y : Float) : Prop :=
  Settles .binary64 x y.toModel.unpack

namespace RoundsToWide

variable {x : ℚ} {y : Float}

theorem of_rounds {f : UnpackedFloat} (r : Rounds .binary64 x f) :
    RoundsToWide x (.ofModel (.pack f)) :=
  r.settles exponents64

theorem finite (r : RoundsToWide x y) (small : |x| ≤ ample) : y.isFinite = true :=
  Settles.bounded r
    ((small.trans ample_le_greatest).trans_lt (lt_add_of_pos_right _ (by positivity)))

theorem nearly (r : RoundsToWide x y) (small : |x| ≤ ample) : Nearly x y where
  finite := r.finite small
  error := by
    have last : (2 : ℚ) ^ (Format.binary64.minExponent - 1) ≤ 1 / ample :=
      calc (2 : ℚ) ^ (Format.binary64.minExponent - 1) ≤ 2 ^ (-200 : ℤ) :=
            zpow_le_zpow_right₀ one_le_two (by decide)
        _ = 1 / ample := by rw [ample, zpow_neg, one_div]; rfl
    have error : |wideValue y - x| ≤
        max (|x| / 2 ^ 53) (2 ^ (Format.binary64.minExponent - 1)) :=
      (Settles.rounds r (r.finite small)).error
    have positive : (0 : ℚ) ≤ 1 / ample := by
      rw [ample]
      positivity
    exact error.trans (max_le (le_add_of_nonneg_right positive)
      (last.trans (le_add_of_nonneg_left (by positivity))))

theorem eq_of_onGrid (r : RoundsToWide x y) (small : |x| ≤ ample) (grid : OnGridOf .binary64 x) :
    wideValue y = x :=
  (Settles.rounds r (r.finite small)).eq_of_onGrid grid

end RoundsToWide

section

variable {x y : Float} (hx : x.isFinite = true) (hy : y.isFinite = true)
include hx

theorem canonical_of_isFinite64 : Canonical .binary64 x.toModel.unpack :=
  (canonical_unpack exponents64 hx).1

theorem RoundsToWide.div (ne : wideValue y ≠ 0) : RoundsToWide (wideValue x / wideValue y) (x / y) :=
  .of_rounds (rounds_div (canonical_of_isFinite64 hx) ne)

include hy

theorem RoundsToWide.add : RoundsToWide (wideValue x + wideValue y) (x + y) :=
  .of_rounds (rounds_add (canonical_of_isFinite64 hx) (canonical_of_isFinite64 hy))

theorem RoundsToWide.sub : RoundsToWide (wideValue x - wideValue y) (x - y) :=
  .of_rounds (rounds_sub (canonical_of_isFinite64 hx) (canonical_of_isFinite64 hy))

theorem RoundsToWide.mul : RoundsToWide (wideValue x * wideValue y) (x * y) :=
  .of_rounds (rounds_mul (canonical_of_isFinite64 hx) (canonical_of_isFinite64 hy))

theorem lt_iff_wideValue : x < y ↔ wideValue x < wideValue y := by
  show decide (x.toModel.unpack.lt y.toModel.unpack = true) = true ↔ _
  rw [decide_eq_true_iff]
  exact lt_iff_amount (canonical_of_isFinite64 hx) (canonical_of_isFinite64 hy)

/-- The error of a difference is small against the difference, however small that is. -/
theorem difference_error (small : |wideValue x - wideValue y| ≤ ample) :
    |wideValue (x - y) - (wideValue x - wideValue y)| ≤ |wideValue x - wideValue y| / 2 ^ 53 := by
  have rounds := RoundsToWide.sub hx hy
  obtain ⟨m, first⟩ := (canonical_of_isFinite64 hx).onGrid.exists_int
  obtain ⟨n, second⟩ := (canonical_of_isFinite64 hy).onGrid.exists_int
  refine (Settles.rounds rounds (rounds.finite small)).error_of_int (n := m - n) ?_
  rw [wideValue, wideValue, first, second]
  push_cast
  ring

end

/-! ### Whole numbers -/

theorem wideValue_zero : wideValue 0 = 0 := rfl

theorem wideValue_one : wideValue 1 = 1 := by
  have digits : (1 : Float).toModel.unpack = .finite .positive (2 ^ 52) (-52) (by decide) := rfl
  rw [wideValue, digits, amount_finite]
  norm_num [signed]

theorem RoundsToWide.toFloat {n : ℕ} (short : n < 2 ^ 64) : RoundsToWide n n.toUInt64.toFloat := by
  have word : n.toUInt64.toNat = n := UInt64.toNat_ofNat_of_lt' short
  have rounds : RoundsToWide ((n.toUInt64.toNat : ℤ) * 2 ^ (0 : ℤ)) n.toUInt64.toFloat :=
    .of_rounds (rounds_normalize .binary64 n.toUInt64.toNat 0 .positive)
  rwa [zpow_zero, mul_one, Int.cast_natCast, word] at rounds

/-- Whole numbers are rounded once. -/
theorem RoundsToWide.ofNat (n : ℕ) : RoundsToWide n (Float.ofNat n) := by
  show RoundsToWide n (Float.ofScientific n false 0)
  by_cases small : n < 2 ^ 53
  · have direct : Float.ofScientific n false 0 = n.toUInt64.toFloat * 1 :=
      dif_pos ⟨small, by decide⟩
    have rounds := RoundsToWide.toFloat (small.trans (by decide))
    have ample : |(n : ℚ)| ≤ ample := by
      have : (n : ℚ) ≤ 2 ^ 53 := by exact_mod_cast small.le
      rw [Nat.abs_cast, Number.ample]
      exact this.trans (by norm_num)
    have value : wideValue n.toUInt64.toFloat = n := by
      refine rounds.eq_of_onGrid ample ⟨n, 0, ?_, by decide, by simp⟩
      rw [Nat.abs_cast]
      exact_mod_cast small.le
    have product := RoundsToWide.mul (rounds.finite ample) (by decide : (1 : Float).isFinite = true)
    rw [value, wideValue_one, mul_one] at product
    rwa [direct]
  · have direct : Float.ofScientific n false 0 = .ofModel (.pack (.ofScientific .binary64 n 0)) :=
      dif_neg fun h => small h.1
    rw [direct]
    exact .of_rounds (rounds_ofScientific .binary64 n)

/-! ### Between the formats -/

/-- A finite number is rounded when it is brought into another format. -/
theorem rounds_refit (format : Format) {f : UnpackedFloat} (finite : f.isFinite = true) :
    Rounds format (amount f) (refit format f) := by
  match f with
  | .zero s => exact Canonical.rounds (f := .zero s) trivial
  | .finite s m e pos => exact rounds_round s pos e

theorem OnGrid.onGridOf_binary64 {x : ℚ} (grid : OnGrid x) : OnGridOf .binary64 x := by
  obtain ⟨n, q, short, low, rfl⟩ := grid
  refine ⟨n, q, short.trans ?_, le_trans ?_ low, rfl⟩
  · show (2 : ℤ) ^ 24 ≤ 2 ^ 53
    norm_num
  · decide

/-- A binary32 number keeps its value when it becomes a wide one. -/
theorem widen_eq {x : Float32} (finite : x.isFinite = true) :
    (widen x).isFinite = true ∧ wideValue (widen x) = exactValue x := by
  have rounds : RoundsToWide (exactValue x) (widen x) := .of_rounds (rounds_refit .binary64 finite)
  have small : |exactValue x| ≤ ample := (exactValue_le_limit finite).trans (by norm_num [limit, ample])
  exact ⟨rounds.finite small, rounds.eq_of_onGrid small (onGrid_exactValue finite).onGridOf_binary64⟩

theorem RoundsTo.narrow {x : Float} (finite : x.isFinite = true) :
    RoundsTo (wideValue x) (narrow x) :=
  .of_rounds (rounds_refit .binary32 finite)

end Flipbook.Number

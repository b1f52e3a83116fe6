import Flipbook.Proofs.Number.Comparing
import Flipbook.Proofs.Number.Packing

/-!
# Binary32 numbers as rational numbers

A finite number is read as the rational number that it stands for (`exactValue`). An operation on finite
numbers gives the nearest number of the grid, unless that is too great (`RoundsTo`).
-/

namespace Flipbook.Number

open Float.Model (Format UnpackedFloat)
open Float.Model.UnpackedFloat (Sign)

/-! ### The grid -/

/-- The numbers with at most 24 digits, none behind the 149th binary place. -/
def OnGrid (x : ℚ) : Prop :=
  ∃ n q : ℤ, |n| ≤ 2 ^ 24 ∧ -149 ≤ q ∧ x = n * 2 ^ q

theorem onGrid_iff {x : ℚ} : OnGrid x ↔ OnGridOf .binary32 x := Iff.rfl

/-- The greatest finite number. -/
def limit : ℚ := (2 ^ 24 - 1) * 2 ^ 104

theorem exponents32 : Format.binary32.minExponent ≤ topExponent .binary32 := by decide

theorem greatest_binary32 : greatest .binary32 = limit := rfl

theorem topExponent_binary32 : topExponent .binary32 = 104 := rfl

theorem onGrid_zero : OnGrid 0 := onGrid_iff.mpr onGridOf_zero

theorem OnGrid.neg {x : ℚ} (grid : OnGrid x) : OnGrid (-x) :=
  onGrid_iff.mpr ((onGrid_iff.mp grid).signed .negative)

theorem onGrid_natCast {n : ℕ} (short : n ≤ 2 ^ 24) : OnGrid n :=
  ⟨n, 0, by rw [Nat.abs_cast]; omega, by decide, by simp⟩

theorem onGrid_one : OnGrid 1 := by
  exact_mod_cast onGrid_natCast (n := 1) (by norm_num)

/-- A number of the grid has no digits behind the last binary place. -/
theorem OnGrid.exists_int {x : ℚ} (grid : OnGrid x) : ∃ n : ℤ, x = n * 2 ^ (-149 : ℤ) :=
  OnGridOf.exists_int (onGrid_iff.mp grid)

/-! ### Values -/

/-- The rational number that a finite number stands for. -/
def exactValue (x : Float32) : ℚ :=
  amount x.toModel.unpack

/-- A number that an operation with the exact result `x` gives. -/
def RoundsTo (x : ℚ) (y : Float32) : Prop :=
  Settles .binary32 x y.toModel.unpack

namespace RoundsTo

variable {x z : ℚ} {y : Float32}

theorem of_rounds {f : UnpackedFloat} (r : Rounds .binary32 x f) : RoundsTo x (.ofModel (.pack f)) :=
  r.settles exponents32

theorem numeric (r : RoundsTo x y) : y.isNaN = false :=
  Settles.numeric r

/-- A result a little beyond the greatest finite number is rounded to it. -/
theorem bounded (r : RoundsTo x y) (small : |x| < limit + 2 ^ 103) : y.isFinite = true := by
  refine Settles.bounded r (small.trans_eq ?_)
  rw [greatest_binary32, topExponent_binary32]
  norm_num

theorem finite (r : RoundsTo x y) (small : |x| ≤ limit) : y.isFinite = true :=
  r.bounded (small.trans_lt (lt_add_of_pos_right limit (by norm_num)))

section

variable (r : RoundsTo x y) (finite : y.isFinite = true)
include r finite

theorem rounds : Rounds .binary32 x y.toModel.unpack :=
  Settles.rounds r finite

theorem eq_of_onGrid (grid : OnGrid x) : exactValue y = x :=
  (r.rounds finite).eq_of_onGrid grid

theorem le (grid : OnGrid z) (le : x ≤ z) : exactValue y ≤ z :=
  (r.rounds finite).le grid le

theorem ge (grid : OnGrid z) (le : z ≤ x) : z ≤ exactValue y :=
  (r.rounds finite).ge grid le

theorem error : |exactValue y - x| ≤ |x| / 2 ^ 24 + 1 / 2 ^ 150 := by
  have last : (2 : ℚ) ^ (Format.binary32.minExponent - 1) = 1 / 2 ^ 150 := by
    show (2 : ℚ) ^ (-150 : ℤ) = _
    norm_num
  have error : |exactValue y - x| ≤ max (|x| / 2 ^ 24) (2 ^ (Format.binary32.minExponent - 1)) :=
    (r.rounds finite).error
  rw [last] at error
  exact error.trans (max_le_add_of_nonneg (by positivity) (by positivity))

/-- Where nothing lies behind the last binary place, the error is small against the number. -/
theorem error_of_int {n : ℤ} (whole : x = n * 2 ^ (-149 : ℤ)) : |exactValue y - x| ≤ |x| / 2 ^ 24 :=
  (r.rounds finite).error_of_int whole

end

/-- An operation whose exact result is a finite number gives that number. -/
theorem exact (r : RoundsTo x y) (grid : OnGrid x) (small : |x| ≤ limit) :
    y.isFinite = true ∧ exactValue y = x :=
  ⟨r.finite small, r.eq_of_onGrid (r.finite small) grid⟩

end RoundsTo

section

variable {x y : Float32} (hx : x.isFinite = true) (hy : y.isFinite = true)
include hx

theorem canonical_of_isFinite : Canonical .binary32 x.toModel.unpack :=
  (canonical_unpack exponents32 hx).1

theorem onGrid_exactValue : OnGrid (exactValue x) :=
  (canonical_of_isFinite hx).onGrid

theorem exactValue_le_limit : |exactValue x| ≤ limit :=
  (canonical_unpack exponents32 hx).2

/-- An operation whose exact result is the value of a finite number gives that value. -/
theorem RoundsTo.same (r : RoundsTo (exactValue x) y) :
    y.isFinite = true ∧ exactValue y = exactValue x :=
  r.exact (onGrid_exactValue hx) (exactValue_le_limit hx)

theorem isNaN_of_isFinite : x.isNaN = false :=
  (canonical_of_isFinite hx).numeric

theorem RoundsTo.div (ne : exactValue y ≠ 0) : RoundsTo (exactValue x / exactValue y) (x / y) :=
  .of_rounds (rounds_div (canonical_of_isFinite hx) ne)

include hy

theorem RoundsTo.add : RoundsTo (exactValue x + exactValue y) (x + y) :=
  .of_rounds (rounds_add (canonical_of_isFinite hx) (canonical_of_isFinite hy))

theorem RoundsTo.sub : RoundsTo (exactValue x - exactValue y) (x - y) :=
  .of_rounds (rounds_sub (canonical_of_isFinite hx) (canonical_of_isFinite hy))

theorem RoundsTo.mul : RoundsTo (exactValue x * exactValue y) (x * y) :=
  .of_rounds (rounds_mul (canonical_of_isFinite hx) (canonical_of_isFinite hy))

/-- Finite numbers compare as the numbers that they stand for. -/
theorem lt_iff_exactValue : x < y ↔ exactValue x < exactValue y := by
  show decide (x.toModel.unpack.lt y.toModel.unpack = true) = true ↔ _
  rw [decide_eq_true_iff]
  exact lt_iff_amount (canonical_of_isFinite hx) (canonical_of_isFinite hy)

theorem le_iff_exactValue : x ≤ y ↔ exactValue x ≤ exactValue y := by
  show decide (x.toModel.unpack.le y.toModel.unpack = true) = true ↔ _
  rw [decide_eq_true_iff]
  exact le_iff_amount (canonical_of_isFinite hx) (canonical_of_isFinite hy)

theorem beq_iff_exactValue : (x == y) = true ↔ exactValue x = exactValue y :=
  beq_iff_amount (canonical_of_isFinite hx) (canonical_of_isFinite hy)

end

theorem isNaN_add {x y : Float32} (hx : x.isFinite = true) (hy : y.isNaN = false) :
    (x + y).isNaN = false := by
  by_cases finite : y.isFinite = true
  · exact (RoundsTo.add hx finite).numeric
  · change ¬ y.toModel.unpack.isFinite = true at finite
    change y.toModel.unpack.isNaN = false at hy
    change (UnpackedFloat.unpack .binary32 (UnpackedFloat.pack .binary32
      (.add .binary32 x.toModel.unpack y.toModel.unpack))).isNaN = false
    cases infinite : y.toModel.unpack with
    | infinity s =>
      rw [add_infinity (canonical_of_isFinite hx)]
      show (UnpackedFloat.unpack .binary32 (UnpackedFloat.packedInfinity .binary32 s)).isNaN = false
      rw [unpack_packedInfinity]
      rfl
    | notANumber =>
      rw [infinite] at hy
      cases hy
    | zero s => exact (finite (infinite ▸ rfl)).elim
    | finite s m e pos => exact (finite (infinite ▸ rfl)).elim

theorem isFinite_of_add {x y : Float32} (sum : (x + y).isFinite = true) : y.isFinite = true := by
  by_contra special
  have infinite : (x + y).isFinite = false :=
    isFinite_pack_special (isFinite_add_special _ x.toModel.unpack (Bool.not_eq_true _ ▸ special))
  exact absurd (infinite.symm.trans sum) Bool.false_ne_true

theorem eq_of_toModel_unpack {x y : Float32} (finite : x.isFinite = true)
    (same : x.toModel.unpack = y.toModel.unpack) : x = y := by
  have word := eq_of_unpack finite same
  obtain ⟨⟨b, _⟩⟩ := x
  obtain ⟨⟨b', _⟩⟩ := y
  obtain rfl : b = b' := UInt32.eq_of_toBitVec_eq word
  rfl

/-- Finite numbers of one value are equal, or they are two zeros. -/
theorem eq_of_exactValue {x y : Float32} (hx : x.isFinite = true) (hy : y.isFinite = true)
    (same : exactValue x = exactValue y) : x = y ∨ exactValue x = 0 := by
  rcases eq_of_amount (canonical_of_isFinite hx) (canonical_of_isFinite hy) same with equal | zero
  · exact .inl (eq_of_toModel_unpack hx equal)
  · exact .inr zero

section

variable {x y z : Float32} (hx : x.isFinite = true) (hy : y.isFinite = true)
include hx hy

/-- The error of a difference is small against the difference, however small that is. -/
theorem exactValue_sub_near (finite : (x - y).isFinite = true) :
    |exactValue (x - y) - (exactValue x - exactValue y)| ≤ |exactValue x - exactValue y| / 2 ^ 24 := by
  obtain ⟨m, first⟩ := (onGrid_exactValue hx).exists_int
  obtain ⟨n, second⟩ := (onGrid_exactValue hy).exists_int
  refine (RoundsTo.sub hx hy).error_of_int finite (n := m - n) ?_
  rw [first, second]
  push_cast
  ring

/-- Of two numbers the greater has the greater difference to a third one, also when both differences
are rounded. -/
theorem exactValue_sub_le_sub (hz : z.isFinite = true) (le : exactValue x ≤ exactValue y)
    (finite : (x - z).isFinite = true) (finite' : (y - z).isFinite = true) :
    exactValue (x - z) ≤ exactValue (y - z) := by
  have first := RoundsTo.sub hx hz
  have last := RoundsTo.sub hy hz
  rcases le.lt_or_eq with less | same
  · exact (first.rounds finite).mono (last.rounds finite') (sub_lt_sub_right less _)
  rcases eq_of_exactValue hx hy same with rfl | zero
  · exact le_rfl
  · have grid : OnGrid (exactValue x - exactValue z) := by
      rw [zero, zero_sub]
      exact (onGrid_exactValue hz).neg
    rw [first.eq_of_onGrid finite grid, last.eq_of_onGrid finite' (same ▸ grid), same]

end

/-! ### Whole numbers -/

theorem exactValue_zero : exactValue 0 = 0 := rfl

theorem RoundsTo.zero {y : Float32} (r : RoundsTo 0 y) : y.isFinite = true ∧ exactValue y = 0 :=
  r.exact onGrid_zero (by norm_num [limit])

theorem eq_zero_of_exactValue {x : Float32} (finite : x.isFinite = true) (zero : exactValue x = 0) :
    x = 0 ∨ x = -0 := by
  have canonical := canonical_of_isFinite finite
  change amount x.toModel.unpack = 0 at zero
  match unpacked : x.toModel.unpack with
  | .zero .positive => exact .inl (eq_of_toModel_unpack finite unpacked)
  | .zero .negative => exact .inr (eq_of_toModel_unpack finite unpacked)
  | .finite .positive _ _ _ =>
    rw [unpacked] at zero
    exact absurd zero amount_positive.ne'
  | .finite .negative _ _ _ =>
    rw [unpacked] at zero
    exact absurd zero amount_negative.ne
  | .infinity _ | .notANumber =>
    rw [unpacked] at canonical
    exact canonical.elim

theorem RoundsTo.natCast {n : ℕ} {y : Float32} (r : RoundsTo n y) (short : n ≤ 2 ^ 24) :
    y.isFinite = true ∧ exactValue y = n := by
  refine r.exact (onGrid_natCast short) ?_
  have : (n : ℚ) ≤ 2 ^ 24 := by exact_mod_cast short
  rw [Nat.abs_cast, limit]
  linarith

theorem exactValue_toFloat32 {n : ℕ} (short : n < 2 ^ 23) :
    n.toUInt64.toFloat32.isFinite = true ∧ exactValue n.toUInt64.toFloat32 = n := by
  have word : n.toUInt64.toNat = n := UInt64.toNat_ofNat_of_lt' (short.trans (by decide))
  have rounds : RoundsTo ((n.toUInt64.toNat : ℤ) * 2 ^ (0 : ℤ)) n.toUInt64.toFloat32 :=
    .of_rounds (rounds_normalize .binary32 n.toUInt64.toNat 0 .positive)
  rw [zpow_zero, mul_one, Int.cast_natCast, word] at rounds
  exact rounds.natCast (by omega)

theorem exactValue_one : exactValue 1 = 1 := by
  have digits : (1 : Float32).toModel.unpack =
      .finite .positive (2 ^ 23) (-23) (by decide) := rfl
  rw [exactValue, digits, amount_finite]
  norm_num [signed]

/-- Whole numbers are rounded once. -/
theorem RoundsTo.ofNat (n : ℕ) : RoundsTo n (Float32.ofNat n) := by
  show RoundsTo n (Float32.ofScientific n false 0)
  by_cases small : n < 2 ^ 23
  · have direct : Float32.ofScientific n false 0 = n.toUInt64.toFloat32 * 1 :=
      dif_pos ⟨small, by decide⟩
    obtain ⟨finite, value⟩ := exactValue_toFloat32 small
    have rounds := RoundsTo.mul finite (by decide : (1 : Float32).isFinite = true)
    rw [value, exactValue_one, mul_one] at rounds
    rwa [direct]
  · have direct : Float32.ofScientific n false 0 =
        .ofModel (.pack (.ofScientific .binary32 n 0)) := dif_neg fun h => small h.1
    rw [direct]
    exact .of_rounds (rounds_ofScientific .binary32 n)

/-- Whole numbers with at most 24 digits are exact. -/
theorem exactValue_ofNat {n : ℕ} (short : n ≤ 2 ^ 24) :
    (Float32.ofNat n).isFinite = true ∧ exactValue (Float32.ofNat n) = n :=
  (RoundsTo.ofNat n).natCast short

theorem exactValue_ofInt {n : ℤ} (low : 0 ≤ n) (high : n ≤ 2 ^ 24) :
    (Float32.ofInt n).isFinite = true ∧ exactValue (Float32.ofInt n) = n := by
  obtain ⟨k, rfl⟩ := Int.eq_ofNat_of_zero_le low
  exact_mod_cast exactValue_ofNat (by omega : k ≤ 2 ^ 24)

end Flipbook.Number

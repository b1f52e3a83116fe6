import Flipbook.Proofs.Number.Binary32
import Flipbook.Proofs.Number.Exact

/-!
# Whole parts of binary numbers

Dropping the fraction of a finite number loses nothing else: its whole part is a number of the format
(`rounds_truncated`). As an integer it is cut at the ends of a word (`word_eq`).
-/

namespace Flipbook.Number

open Float.Model (Format UnpackedFloat)
open Float.Model.UnpackedFloat (Sign)

variable {format : Format} {f : UnpackedFloat} {x : ℚ}

/-! ### Whole parts of rational numbers -/

theorem wholeRat_neg (x : ℚ) : wholeRat (-x) = -wholeRat x := by
  unfold wholeRat
  rcases lt_trichotomy x 0 with negative | rfl | positive
  · rw [if_pos (by linarith), if_neg (not_le.mpr negative), Int.floor_neg]
  · simp
  · rw [if_neg (by linarith), if_pos positive.le, Int.ceil_neg]

theorem wholeRat_signed (s : Sign) (x : ℚ) : wholeRat (signed s x) = s.apply (wholeRat x) := by
  cases s
  · exact wholeRat_neg x
  · rfl

theorem abs_wholeRat_le (x : ℚ) : |(wholeRat x : ℚ)| ≤ |x| := by
  unfold wholeRat
  split
  · next positive =>
    have : (0 : ℚ) ≤ ⌊x⌋ := by exact_mod_cast Int.floor_nonneg.mpr positive
    rw [abs_of_nonneg this, abs_of_nonneg positive]
    exact Int.floor_le x
  · next negative =>
    have negative : x ≤ 0 := (not_le.mp negative).le
    have : (⌈x⌉ : ℚ) ≤ 0 := by exact_mod_cast Int.ceil_le.mpr (by exact_mod_cast negative)
    rw [abs_of_nonpos this, abs_of_nonpos negative]
    exact neg_le_neg (Int.le_ceil x)

/-- A number of the grid with a fraction has few digits before it. -/
theorem OnGridOf.wholeRat (grid : OnGridOf format x) : OnGridOf format (wholeRat x) := by
  obtain ⟨n, q, short, low, rfl⟩ := grid
  rcases le_total 0 q with whole | fraction
  · obtain ⟨k, rfl⟩ := Int.eq_ofNat_of_zero_le whole
    have whole : (n : ℚ) * 2 ^ (k : ℤ) = (n * 2 ^ k : ℤ) := by push_cast; rfl
    rw [whole, wholeRat_intCast]
    exact ⟨n, k, short, low, by push_cast; rfl⟩
  · refine ⟨Number.wholeRat (n * 2 ^ q), 0, ?_, minExponent_nonpos format, by simp⟩
    have : |(Number.wholeRat (n * 2 ^ q) : ℚ)| ≤ 2 ^ format.mantissaBits :=
      calc |(Number.wholeRat (n * 2 ^ q) : ℚ)| ≤ |(n : ℚ) * 2 ^ q| := abs_wholeRat_le _
        _ = |(n : ℚ)| * 2 ^ q := by rw [abs_mul, abs_of_pos (by positivity : (0 : ℚ) < 2 ^ q)]
        _ ≤ |(n : ℚ)| * 1 := by gcongr; exact zpow_le_one_of_nonpos₀ one_le_two fraction
        _ ≤ 2 ^ format.mantissaBits := by rw [mul_one]; exact_mod_cast short
    exact_mod_cast this

/-! ### Words -/

/-- A whole number that fits a word. -/
def IsWord (n : ℤ) : Prop :=
  wordMin ≤ n ∧ n ≤ wordMax

instance (n : ℤ) : Decidable (IsWord n) :=
  inferInstanceAs (Decidable (_ ∧ _))

theorem wrap_eq {n : ℤ} (fits : IsWord n) : wrap n = n := by
  obtain ⟨low, high⟩ := fits
  rw [wordMin] at low
  rw [wordMax] at high
  exact Int.bmod_eq_of_le_mul_two (by omega) (by omega)

theorem isWord_wrap (n : ℤ) : IsWord (wrap n) := by
  have low : -0x8000000000000000 ≤ wrap n := Int.le_bmod (by decide)
  have high : wrap n < 0x8000000000000000 := Int.bmod_lt (by decide)
  exact ⟨low, Int.le_of_lt_add_one high⟩

/-! ### Whole parts of numbers of a format -/

theorem wholePart_eq (m : ℕ) (e : ℤ) : (wholePart m e : ℤ) = wholeRat (m * 2 ^ e) := by
  have quotient : (m : ℚ) * 2 ^ e = (m <<< e.toNat : ℕ) / (2 ^ (-e).toNat : ℕ) := by
    rw [Nat.shiftLeft_eq]
    push_cast
    rcases le_total 0 e with whole | fraction
    · obtain ⟨k, rfl⟩ := Int.eq_ofNat_of_zero_le whole
      simp
    · obtain ⟨k, rfl⟩ := Int.exists_eq_neg_ofNat fraction
      simp [div_eq_mul_inv]
  rw [wholePart, Nat.shiftRight_eq_div_pow, wholeRat, if_pos (by positivity), quotient,
    Rat.floor_natCast_div_natCast]
  exact Int.natCast_div _ _

theorem wholeRat_amount_zero (s : Sign) : wholeRat (amount (.zero s)) = 0 :=
  wholeRat_intCast 0

theorem word_finite {s : Sign} {m : ℕ} {e : ℤ} {pos : 0 < m} :
    word (.finite s m e pos) = max wordMin (min wordMax (s.apply (wholePart m e))) :=
  rfl

theorem truncated_finite {s : Sign} {m : ℕ} {e : ℤ} {pos : 0 < m} :
    truncated format (.finite s m e pos) =
      if wholePart m e = 0 then .zero s else .round format s (wholePart m e) 0 :=
  rfl

theorem word_eq (finite : f.isFinite = true) :
    word f = max wordMin (min wordMax (wholeRat (amount f))) := by
  match f with
  | .zero s =>
    rw [wholeRat_amount_zero]
    rfl
  | .finite s m e pos =>
    rw [word_finite, wholePart_eq, amount_finite, wholeRat_signed]

theorem rounds_truncated (canonical : Canonical format f) :
    Rounds format (wholeRat (amount f)) (truncated format f) := by
  match f with
  | .zero s =>
    rw [wholeRat_amount_zero, Int.cast_zero]
    exact canonical.rounds
  | .finite s m e pos =>
    rw [amount_finite, wholeRat_signed, ← wholePart_eq, cast_apply, Int.cast_natCast,
      truncated_finite]
    split
    · next isZero =>
      have zero : signed s (wholePart m e : ℚ) = amount (.zero s) := by
        rw [isZero, Nat.cast_zero, amount_zero]
        cases s <;> simp [signed]
      rw [zero]
      exact Canonical.rounds (f := .zero s) trivial
    · next nonzero =>
      have rounds : Rounds format (signed s (wholePart m e * 2 ^ (0 : ℤ))) _ :=
        rounds_round s (Nat.pos_of_ne_zero nonzero) 0
      rwa [zpow_zero, mul_one] at rounds

/-! ### Binary32 -/

variable {y : Float32} {n : ℤ}

/-- The whole part of a finite number is one too. -/
theorem trunc_eq (finite : y.isFinite = true) :
    (GridNumber.trunc y).isFinite = true ∧
      exactValue (GridNumber.trunc y) = wholeRat (exactValue y) := by
  have canonical := canonical_of_isFinite finite
  have rounds : RoundsTo (wholeRat (exactValue y)) (GridNumber.trunc y) :=
    .of_rounds (rounds_truncated canonical)
  exact rounds.exact canonical.onGrid.wholeRat
    ((abs_wholeRat_le _).trans (exactValue_le_limit finite))

theorem toInt_eq (finite : y.isFinite = true) :
    GridNumber.toInt y = max wordMin (min wordMax (wholeRat (exactValue y))) :=
  word_eq finite

theorem RoundsTo.ofInt (positive : 0 ≤ n) : RoundsTo n (GridNumber.ofInt n : Float32) := by
  obtain ⟨k, rfl⟩ := Int.eq_ofNat_of_zero_le positive
  exact RoundsTo.ofNat k

theorem isFinite_ofInt (positive : 0 ≤ n) (few : n ≤ 2 ^ 64) :
    (GridNumber.ofInt n : Float32).isFinite = true := by
  have low : (0 : ℚ) ≤ n := by exact_mod_cast positive
  have high : (n : ℚ) ≤ 2 ^ 64 := by exact_mod_cast few
  refine (RoundsTo.ofInt positive).finite ?_
  rw [abs_of_nonneg low, limit]
  linarith

end Flipbook.Number

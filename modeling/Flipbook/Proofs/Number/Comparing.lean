import Flipbook.Proofs.Number.Order
import Flipbook.Proofs.Number.Rounding

/-!
# Comparing numbers of a format

Numbers are compared by sign, exponent and mantissa. In the form that a format gives to its numbers
this is the order of the rational numbers that they stand for (`compare_amount`).
-/

namespace Flipbook.Number

open Float.Model (Format UnpackedFloat)
open Float.Model.UnpackedFloat (Sign)

variable {format : Format} {f g : UnpackedFloat} {m n : ℕ} {e d : ℤ}

theorem Canonical.numeric (canonical : Canonical format f) : f.isNaN = false := by
  cases f <;> first | rfl | exact canonical.elim

/-- Of two mantissas in the form of the format the one with the greater exponent is greater, and with
equal exponents the greater one. -/
theorem lt_of_digits (short : m < 2 ^ format.mantissaBits) (low : format.minExponent ≤ e)
    (many : 2 ^ format.mantissaBitsWithoutImplicit ≤ n ∨ d = format.minExponent)
    (less : e < d ∨ e = d ∧ m < n) : (m : ℚ) * 2 ^ e < n * 2 ^ d := by
  rcases less with less | ⟨rfl, less⟩
  · have big : 2 ^ format.mantissaBitsWithoutImplicit ≤ n := many.resolve_right (by omega)
    have more : (2 : ℚ) ^ (e + 1) ≤ 2 ^ d := zpow_le_zpow_right₀ one_le_two (by omega)
    have short : (m : ℚ) < 2 ^ format.mantissaBits := by exact_mod_cast short
    calc (m : ℚ) * 2 ^ e < 2 ^ format.mantissaBits * 2 ^ e :=
          mul_lt_mul_of_pos_right short (by positivity)
      _ = 2 ^ format.mantissaBitsWithoutImplicit * 2 ^ (e + 1) := by
          rw [mantissaBits_eq, zpow_add_one₀ two_ne_zero]
          ring
      _ ≤ n * 2 ^ d := mul_le_mul (by exact_mod_cast big) more (by positivity) (by positivity)
  · exact mul_lt_mul_of_pos_right (by exact_mod_cast less) (by positivity)

theorem amount_positive {pos : 0 < m} : 0 < amount (.finite .positive m e pos) := by
  rw [amount_finite, signed]
  positivity

theorem amount_negative {pos : 0 < m} : amount (.finite .negative m e pos) < 0 := by
  rw [amount_finite, signed, neg_lt_zero]
  positivity

theorem amount_lt_of_rank_lt (hf : Canonical format f) (hg : Canonical format g)
    (less : rank f < rank g) : amount f < amount g := by
  rcases f with _ | _ | s | ⟨s, m, e, mpos⟩
  · exact hf.elim
  · exact hf.elim
  · rcases g with _ | _ | t | ⟨t, n, d, npos⟩
    · exact hg.elim
    · exact hg.elim
    · exact absurd less (lt_irrefl _)
    · cases t
      · rw [rank_zero, rank_negative] at less
        simp [Prod.Lex.toLex_lt_toLex] at less
      · exact amount_positive
  · rcases g with _ | _ | t | ⟨t, n, d, npos⟩
    · exact hg.elim
    · exact hg.elim
    · cases s
      · exact amount_negative
      · rw [rank_zero, rank_positive] at less
        simp [Prod.Lex.toLex_lt_toLex] at less
    · cases s <;> cases t
      · -- Below zero both exponent and mantissa count downwards.
        rw [rank_negative, rank_negative] at less
        simp only [Prod.Lex.toLex_lt_toLex, lt_irrefl, true_and, false_or] at less
        exact neg_lt_neg (lt_of_digits hg.1 hg.2.1 hf.2.2 (by omega))
      · exact amount_negative.trans amount_positive
      · rw [rank_negative, rank_positive] at less
        simp [Prod.Lex.toLex_lt_toLex] at less
      · rw [rank_positive, rank_positive] at less
        simp only [Prod.Lex.toLex_lt_toLex, lt_irrefl, true_and, false_or] at less
        exact lt_of_digits hf.1 hf.2.1 hg.2.2 (by omega)

/-- Only the two zeros share a place in the order. -/
theorem eq_of_rank_eq (hf : Canonical format f) (hg : Canonical format g) (same : rank f = rank g) :
    f = g ∨ ∃ s t, f = .zero s ∧ g = .zero t := by
  match f, g with
  | .zero s, .zero t => exact .inr ⟨s, t, rfl, rfl⟩
  | .zero _, .finite t _ _ _ => cases t <;> cases same
  | .finite s _ _ _, .zero _ => cases s <;> cases same
  | .finite s m e _, .finite t n d _ =>
    left
    cases s <;> cases t
    · rw [rank_negative, rank_negative] at same
      obtain ⟨rfl, rfl⟩ : e = d ∧ m = n := by simpa using same
      rfl
    · cases same
    · cases same
    · rw [rank_positive, rank_positive] at same
      obtain ⟨rfl, rfl⟩ : e = d ∧ m = n := by simpa using same
      rfl

theorem amount_eq_of_rank_eq (hf : Canonical format f) (hg : Canonical format g)
    (same : rank f = rank g) : amount f = amount g := by
  rcases eq_of_rank_eq hf hg same with rfl | ⟨s, t, rfl, rfl⟩
  · rfl
  · rfl

/-- Two numbers of a format compare as the rational numbers that they stand for. -/
theorem compare_amount (hf : Canonical format f) (hg : Canonical format g) :
    f.compare g = some (compare (amount f) (amount g)) := by
  rw [compare_rank hf.numeric hg.numeric]
  congr 1
  rcases lt_trichotomy (rank f) (rank g) with less | same | more
  · rw [compare_lt_iff_lt.mpr less, compare_lt_iff_lt.mpr (amount_lt_of_rank_lt hf hg less)]
  · rw [compare_eq_iff_eq.mpr same, compare_eq_iff_eq.mpr (amount_eq_of_rank_eq hf hg same)]
  · rw [compare_gt_iff_gt.mpr more, compare_gt_iff_gt.mpr (amount_lt_of_rank_lt hg hf more)]

section

variable (hf : Canonical format f) (hg : Canonical format g)
include hf hg

theorem beq_iff_amount : f.beq g = true ↔ amount f = amount g := by
  delta UnpackedFloat.beq
  rw [compare_amount hf hg, ← compare_eq_iff_eq]
  simp

theorem rank_eq_of_amount_eq (same : amount f = amount g) : rank f = rank g := by
  rcases lt_trichotomy (rank f) (rank g) with less | equal | more
  · exact absurd same (amount_lt_of_rank_lt hf hg less).ne
  · exact equal
  · exact absurd same (amount_lt_of_rank_lt hg hf more).ne'

/-- Numbers of a format with one value are equal, or they are two zeros. -/
theorem eq_of_amount (same : amount f = amount g) : f = g ∨ amount f = 0 := by
  rcases eq_of_rank_eq hf hg (rank_eq_of_amount_eq hf hg same) with rfl | ⟨s, t, rfl, rfl⟩
  · exact .inl rfl
  · exact .inr rfl

theorem lt_iff_amount : f.lt g = true ↔ amount f < amount g := by
  rw [UnpackedFloat.lt, compare_amount hf hg, ← compare_lt_iff_lt]
  simp

theorem le_iff_amount : f.le g = true ↔ amount f ≤ amount g := by
  rw [UnpackedFloat.le, compare_amount hf hg, ← compare_le_iff_le]
  simp [Ordering.isLE_iff_ne_gt]

end

end Flipbook.Number

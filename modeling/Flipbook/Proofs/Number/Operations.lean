import Flipbook.Proofs.Number.Rounding

/-!
# Rounded operations

Sum, difference, product and quotient of binary numbers are the exact ones, rounded once.
-/

namespace Flipbook.Number

open Float.Model (Format UnpackedFloat totalExponent)
open Float.Model.UnpackedFloat (Sign Accuracy)

variable {format : Format} {f g : UnpackedFloat}

/-! ### Moving digits -/

theorem shiftLeft_mul_zpow (m k : ℕ) (e : ℤ) :
    ((m <<< k : ℕ) : ℚ) * 2 ^ (e - k) = m * 2 ^ e := by
  rw [Nat.shiftLeft_eq, zpow_sub₀ two_ne_zero, zpow_natCast]
  push_cast
  field_simp

theorem totalExponent_shiftLeft {m : ℕ} (pos : 0 < m) (k : ℕ) (e : ℤ) :
    totalExponent (m <<< k) (e - k) = totalExponent m e := by
  have digits : (m <<< k).log2 = m.log2 + k := by
    have ne : m <<< k ≠ 0 := by simp [Nat.shiftLeft_eq, pos.ne']
    rw [Nat.log2_eq_iff ne, Nat.shiftLeft_eq]
    have low := Nat.log2_self_le pos.ne'
    have high := Nat.lt_log2_self (n := m)
    constructor
    · rw [pow_add]
      exact Nat.mul_le_mul_right _ low
    · rw [add_right_comm, pow_add]
      exact Nat.mul_lt_mul_of_pos_right high (by positivity)
  simp only [totalExponent, digits]
  omega

theorem rounds_round (s : Sign) {m : ℕ} (pos : 0 < m) (e : ℤ) :
    Rounds format (signed s (m * 2 ^ e)) (.round format s m e) := by
  obtain ⟨k, shift⟩ : ∃ k, (e - format.targetExponent (totalExponent m e)).toNat = k := ⟨_, rfl⟩
  have lower : UnpackedFloat.round format s m e =
      .roundWithAccuracy format s (m <<< k) (e - k) .exact := by
    rw [← shift]
    rfl
  rw [lower, ← shiftLeft_mul_zpow m k e]
  refine rounds_roundWithAccuracy (.exact _) ?_
  rw [totalExponent_shiftLeft pos]
  omega

theorem rounds_normalize (format : Format) (m e : ℤ) (s : Sign) :
    Rounds format (m * 2 ^ e) (.normalize format m e s) := by
  unfold UnpackedFloat.normalize
  rcases lt_trichotomy m 0 with neg | rfl | pos
  · have same : (m : ℚ) * 2 ^ e = signed .negative ((-m).toNat * 2 ^ e) := by
      have : ((-m).toNat : ℤ) = -m := Int.toNat_of_nonneg (by omega)
      rw [← Int.cast_natCast, this, signed]
      push_cast
      ring
    rw [Int.compare_eq_lt.mpr neg, same]
    exact rounds_round .negative (by omega) e
  · rw [Int.cast_zero, zero_mul]
    exact Canonical.rounds (f := .zero s) trivial
  · have same : (m : ℚ) * 2 ^ e = signed .positive (m.toNat * 2 ^ e) := by
      have : (m.toNat : ℤ) = m := Int.toNat_of_nonneg (by omega)
      rw [← Int.cast_natCast, this, signed]
    rw [Int.compare_eq_gt.mpr pos, same]
    exact rounds_round .positive (by omega) e

/-! ### Sums and differences -/

theorem amount_neg (f : UnpackedFloat) : amount f.neg = -amount f := by
  rcases f with _ | _ | _ | ⟨s, m, e, pos⟩
  · exact neg_zero.symm
  · exact neg_zero.symm
  · exact neg_zero.symm
  · cases s
    · exact (neg_neg _).symm
    · rfl

theorem canonical_neg (canonical : Canonical format f) : Canonical format f.neg := by
  cases f <;> exact canonical

/-- Two numbers written to one exponent are added exactly. -/
theorem apply_decrease (s : Sign) (m : ℕ) {e low : ℤ} (le : low ≤ e) :
    (s.apply ((UnpackedFloat.decreaseExponent m e low).1 : ℕ) : ℚ) * 2 ^ low =
      signed s (m * 2 ^ e) := by
  obtain ⟨k, rfl⟩ := Int.le.dest le
  have := shiftLeft_mul_zpow m k (low + k)
  unfold UnpackedFloat.decreaseExponent
  rw [add_sub_cancel_left, Int.toNat_natCast, cast_apply, Int.cast_natCast, ← signed_mul]
  rw [add_sub_cancel_right] at this
  rw [this]

theorem rounds_add (hf : Canonical format f) (hg : Canonical format g) :
    Rounds format (amount f + amount g) (.add format f g) := by
  match f, g with
  | .zero s, .zero t =>
    rw [amount_zero, amount_zero, add_zero]
    cases s <;> cases t <;> exact Canonical.rounds (f := .zero _) trivial
  | .zero _, .finite s m e pos =>
    rw [amount_zero, zero_add]
    exact hg.rounds
  | .finite s m e pos, .zero _ =>
    rw [amount_zero, add_zero]
    exact hf.rounds
  | .finite s m e _, .finite t n d _ =>
    have := rounds_normalize format
      (s.apply ((UnpackedFloat.decreaseExponent m e (min e d)).1 : ℕ) +
        t.apply ((UnpackedFloat.decreaseExponent n d (min e d)).1 : ℕ)) (min e d) .positive
    rw [Int.cast_add, add_mul, apply_decrease s m (min_le_left e d),
      apply_decrease t n (min_le_right e d)] at this
    exact this

theorem sub_eq_add (format : Format) (f g : UnpackedFloat) :
    UnpackedFloat.sub format f g = .add format f g.neg := by
  rcases f with _ | _ | _ | ⟨s, m, e, _⟩ <;> rcases g with _ | _ | _ | ⟨t, n, d, _⟩ <;> try rfl
  have opposite (k : ℤ) : (-t).apply k = -t.apply k := by
    cases t
    · exact (neg_neg k).symm
    · rfl
  show UnpackedFloat.normalize _ (s.apply _ - t.apply _) _ _ =
    UnpackedFloat.normalize _ (s.apply _ + (-t).apply _) _ _
  rw [opposite, Int.sub_eq_add_neg]

theorem rounds_sub (hf : Canonical format f) (hg : Canonical format g) :
    Rounds format (amount f - amount g) (.sub format f g) := by
  rw [sub_eq_add, sub_eq_add_neg, ← amount_neg]
  exact rounds_add hf (canonical_neg hg)

theorem add_infinity (hf : Canonical format f) (s : Sign) :
    UnpackedFloat.add format f (.infinity s) = .infinity s := by
  match f with
  | .zero _ | .finite .. => rfl

/-- What is not finite stays so when it is added to something. -/
theorem isFinite_add_special (format : Format) (f : UnpackedFloat) (special : g.isFinite = false) :
    (UnpackedFloat.add format f g).isFinite = false := by
  match f, g with
  | .infinity s, .infinity t => cases s <;> cases t <;> rfl
  | .notANumber, .infinity _ | .zero _, .infinity _ | .finite .., .infinity _ => rfl
  | .notANumber, .notANumber | .infinity _, .notANumber | .zero _, .notANumber
  | .finite .., .notANumber => rfl

/-! ### Products and quotients -/

theorem signed_mul_signed (s t : Sign) (x y : ℚ) :
    signed (s * t) (x * y) = signed s x * signed t y := by
  cases s <;> cases t
  · exact (neg_mul_neg x y).symm
  · exact (neg_mul x y).symm
  · exact (mul_neg x y).symm
  · rfl

theorem signed_div_signed (s t : Sign) (x y : ℚ) :
    signed (s / t) (x / y) = signed s x / signed t y := by
  cases s <;> cases t
  · exact (neg_div_neg_eq x y).symm
  · exact neg_div' y x
  · exact (div_neg x).symm
  · rfl

theorem rounds_mul (hf : Canonical format f) (hg : Canonical format g) :
    Rounds format (amount f * amount g) (.mul format f g) := by
  match f, g with
  | .zero _, .zero _ =>
    rw [amount_zero, zero_mul]
    exact Canonical.rounds (f := .zero _) trivial
  | .zero _, .finite .. =>
    rw [amount_zero, zero_mul]
    exact Canonical.rounds (f := .zero _) trivial
  | .finite .., .zero _ =>
    rw [amount_zero, mul_zero]
    exact Canonical.rounds (f := .zero _) trivial
  | .finite s m e mpos, .finite t n d npos =>
    have value : amount (.finite s m e mpos) * amount (.finite t n d npos) =
        signed (s * t) ((m * n : ℕ) * 2 ^ (e + d)) := by
      rw [amount_finite, amount_finite, ← signed_mul_signed, zpow_add₀ two_ne_zero]
      push_cast
      ring_nf
    rw [value]
    refine rounds_roundWithAccuracy (.exact _) ?_
    rw [target_eq]
    -- Of two numbers whose product may reach past the last place one has all its digits.
    have digits (many : 2 ^ format.mantissaBitsWithoutImplicit ≤ m ∨
        2 ^ format.mantissaBitsWithoutImplicit ≤ n) :
        format.mantissaBitsWithoutImplicit ≤ (m * n).log2 := by
      rw [Nat.le_log2 (Nat.mul_pos mpos npos).ne']
      rcases many with big | big
      · exact big.trans (Nat.le_mul_of_pos_right m npos)
      · exact big.trans (Nat.le_mul_of_pos_left n mpos)
    have low := minExponent_nonpos format
    obtain ⟨-, -, many | last⟩ := hf
    · have := digits (.inl many)
      omega
    obtain ⟨-, -, many | last⟩ := hg
    · have := digits (.inr many)
      omega
    omega

/-- Quotients get enough digits before they are cut. -/
theorem digits_quotient {m n k d : ℕ} (mpos : 0 < m) (npos : 0 < n)
    (enough : d + 1 + n.log2 ≤ m.log2 + k) : d ≤ (m <<< k / n).log2 := by
  have big : 2 ^ d ≤ m <<< k / n := by
    rw [Nat.le_div_iff_mul_le npos, Nat.shiftLeft_eq]
    calc 2 ^ d * n ≤ 2 ^ d * 2 ^ (n.log2 + 1) := Nat.mul_le_mul_left _ Nat.lt_log2_self.le
      _ = 2 ^ (d + 1 + n.log2) := by rw [← pow_add]; congr 1; omega
      _ ≤ 2 ^ (m.log2 + k) := Nat.pow_le_pow_right (by decide) enough
      _ ≤ m * 2 ^ k := by
        rw [pow_add]
        exact Nat.mul_le_mul_right _ (Nat.log2_self_le mpos.ne')
  exact (Nat.le_log2 (Nat.ne_of_gt (lt_of_lt_of_le (Nat.two_pow_pos d) big))).mpr big

/-- The quotient of two finite numbers, with the place it is cut in. -/
theorem exists_div (format : Format) (s t : Sign) {m n : ℕ} (mpos : 0 < m) (npos : 0 < n) (e d : ℤ) :
    ∃ (k : ℕ) (low : ℤ), low + k = e - d ∧
      low = min (e - d)
        (max (m.log2 + e - (n.log2 + d) - format.mantissaBits) format.minExponent) ∧
      UnpackedFloat.div format (.finite s m e mpos) (.finite t n d npos) =
        .roundWithAccuracy format (s / t) (m <<< k / n) low
          (UnpackedFloat.accuracyOfFraction (m <<< k % n) n) := by
  have target : format.targetExponent (totalExponent m e - totalExponent n d) =
      max (m.log2 + e - (n.log2 + d) - format.mantissaBits) format.minExponent := by
    simp only [Format.targetExponent, totalExponent]
    congr 1
    omega
  obtain ⟨low, place⟩ : ∃ low, low = min (e - d)
      (max (m.log2 + e - (n.log2 + d) - format.mantissaBits) format.minExponent) := ⟨_, rfl⟩
  obtain ⟨k, shift⟩ := Int.le.dest (place ▸ min_le_left _ _ : low ≤ e - d)
  refine ⟨k, low, shift, place, ?_⟩
  unfold UnpackedFloat.div UnpackedFloat.divCore
  simp only [target, ← place]
  rw [← shift, add_sub_cancel_left, Int.toNat_natCast]

theorem rounds_div (hf : Canonical format f) (ne : amount g ≠ 0) :
    Rounds format (amount f / amount g) (.div format f g) := by
  match f, g with
  | _, .zero _ | _, .infinity _ | _, .notANumber => exact (ne rfl).elim
  | .zero _, .finite .. =>
    rw [amount_zero, zero_div]
    exact Canonical.rounds (f := .zero _) trivial
  | .finite s m e mpos, .finite t n d npos =>
    obtain ⟨k, low, shift, place, cut⟩ := exists_div format s t mpos npos e d
    have value : amount (.finite s m e mpos) / amount (.finite t n d npos) =
        signed (s / t) ((m <<< k : ℕ) / n * 2 ^ low) := by
      have places : (2 : ℚ) ^ e = 2 ^ k * 2 ^ low * 2 ^ d := by
        rw [← zpow_natCast, ← zpow_add₀ two_ne_zero, ← zpow_add₀ two_ne_zero]
        congr 1
        omega
      rw [amount_finite, amount_finite, ← signed_div_signed, Nat.shiftLeft_eq, places]
      push_cast
      congr 1
      field_simp
    rw [cut, value]
    refine rounds_roundWithAccuracy (.quotient _ npos) ?_
    rw [target_eq]
    rw [mantissaBits_eq] at place
    rcases le_or_gt low format.minExponent with last | before
    · exact le_max_of_le_right last
    · have := digits_quotient (k := k) (d := format.mantissaBitsWithoutImplicit) mpos npos
        (by push_cast at place; omega)
      omega

/-! ### Whole numbers -/

/-- A whole number that is written down is rounded once. -/
theorem rounds_ofScientific (format : Format) (n : ℕ) :
    Rounds format n (.ofScientific format n 0) := by
  rcases Nat.eq_zero_or_pos n with rfl | pos
  · exact Canonical.rounds (f := .zero .positive) trivial
  have range : (0 : ℤ) < 2 ^ format.exponentBits := by positivity
  have scaled : UnpackedFloat.ofScientific format n 0 =
      .roundWithAccuracy format .positive (n <<< format.mantissaBits) (0 - format.mantissaBits)
        .exact := by
    unfold UnpackedFloat.ofScientific
    rw [dif_neg pos.ne', if_neg (by omega), if_neg (by omega), if_pos le_rfl]
    show UnpackedFloat.roundWithAccuracy format .positive ((n <<< format.mantissaBits) * 10 ^ 0)
      (-format.mantissaBits + 0) .exact = _
    rw [pow_zero, mul_one, add_zero, zero_sub]
  have value : (n : ℚ) =
      signed .positive ((n <<< format.mantissaBits : ℕ) * 2 ^ (0 - format.mantissaBits : ℤ)) := by
    rw [shiftLeft_mul_zpow, zpow_zero, mul_one]
    rfl
  rw [scaled, value]
  refine rounds_roundWithAccuracy (.exact _) ?_
  rw [totalExponent_shiftLeft pos, target_eq, mantissaBits_eq]
  push_cast
  omega

end Flipbook.Number

import Flipbook.Proofs.Number.Operations

/-!
# Packing

A number of the grid survives being packed into a word and read back, unless it is greater than the
greatest finite number; then it becomes infinite.
-/

namespace Flipbook.Number

open Float.Model (Format UnpackedFloat)
open Float.Model.UnpackedFloat (Sign packComponents)

variable {format : Format}

/-! ### Exponents -/

theorem minExponent_eq (format : Format) :
    format.minExponent = 1 - format.exponentBias - format.mantissaBitsWithoutImplicit := by
  have range : 0 < 2 ^ (format.exponentBits - 1) := Nat.two_pow_pos _
  have bias : format.exponentBias = 2 ^ (format.exponentBits - 1) - 1 := rfl
  have least : format.minExponent = 3 - (2 ^ (format.exponentBits - 1) : ℕ) - format.mantissaBits := by
    push_cast
    rfl
  rw [least, bias, mantissaBits_eq]
  omega

/-- The exponent of the greatest finite number. -/
def topExponent (format : Format) : ℤ :=
  (2 ^ format.exponentBits : ℕ) - 2 - format.exponentBias - format.mantissaBitsWithoutImplicit

/-- The greatest finite number. -/
def greatest (format : Format) : ℚ :=
  (2 ^ format.mantissaBits - 1) * 2 ^ topExponent format

theorem greatest_nonneg (format : Format) : 0 ≤ greatest format :=
  mul_nonneg (sub_nonneg.mpr (one_le_pow₀ one_le_two)) (by positivity)

theorem onGridOf_greatest (high : format.minExponent ≤ topExponent format) :
    OnGridOf format (greatest format) := by
  refine ⟨2 ^ format.mantissaBits - 1, topExponent format, ?_, high, ?_⟩
  · have : (0 : ℤ) < 2 ^ format.mantissaBits := by positivity
    rw [abs_of_nonneg (by omega)]
    omega
  · rw [greatest]
    push_cast
    rfl

/-! ### Words -/

theorem ofBitVec_toBitVec (s : Sign) : UnpackedFloat.Sign.ofBitVec s.toBitVec = s := by
  cases s <;> rfl

theorem unpackSign_packComponents (s : Sign) (e : BitVec format.exponentBits)
    (m : BitVec format.mantissaBitsWithoutImplicit) :
    UnpackedFloat.unpackSign (packComponents format s e m) = s.toBitVec := by
  ext i inside
  obtain rfl : i = 0 := by omega
  delta UnpackedFloat.unpackSign
  simp [packComponents, BitVec.extractLsb, BitVec.getLsbD_append, BitVec.getElem_append]

/-- A word is made of its sign, its exponent and its digits. -/
theorem packComponents_unpack (b : BitVec format.numBits) :
    packComponents format (UnpackedFloat.Sign.ofBitVec (UnpackedFloat.unpackSign b))
      (UnpackedFloat.unpackExponent b) (UnpackedFloat.unpackMantissa b) = b := by
  have sign : (UnpackedFloat.Sign.ofBitVec (UnpackedFloat.unpackSign b)).toBitVec =
      UnpackedFloat.unpackSign b := by
    generalize UnpackedFloat.unpackSign b = bit
    decide +revert
  have last : UnpackedFloat.unpackSign b =
      b.extractLsb' (format.mantissaBitsWithoutImplicit + format.exponentBits) 1 := by
    delta UnpackedFloat.unpackSign
    ext
    simp [BitVec.extractLsb]
  have middle : UnpackedFloat.unpackExponent b =
      b.extractLsb' format.mantissaBitsWithoutImplicit format.exponentBits := by
    ext
    simp [UnpackedFloat.unpackExponent, BitVec.extractLsb]
  have first : UnpackedFloat.unpackMantissa b =
      b.extractLsb' 0 format.mantissaBitsWithoutImplicit := by
    ext
    simp [UnpackedFloat.unpackMantissa, BitVec.extractLsb]
  rw [packComponents, sign, last, middle, first,
    BitVec.extractLsb'_append_extractLsb'_eq_extractLsb' rfl,
    BitVec.extractLsb'_append_extractLsb'_eq_extractLsb' (Nat.zero_add _).symm]
  exact BitVec.extractLsb'_eq_self

theorem toNat_pos_of_ne_zero {n : ℕ} {m : BitVec n} (h : m ≠ 0#n) : 0 < m.toNat := by
  simpa [BitVec.toNat_pos, BitVec.pos_iff_ne_zero]

theorem toNat_one_append {n : ℕ} (m : BitVec n) : (1#1 ++ m).toNat = 2 ^ n + m.toNat := by
  rw [BitVec.toNat_append, ← Nat.shiftLeft_add_eq_or_of_lt m.isLt, BitVec.toNat_ofNat,
    Nat.shiftLeft_eq]
  simp

/-- The number with the given sign, exponent and digits behind the first. -/
theorem unpack_packComponents (s : Sign) (e : BitVec format.exponentBits)
    (m : BitVec format.mantissaBitsWithoutImplicit) :
    UnpackedFloat.unpack format (packComponents format s e m) =
      if e = -1#_ then if m = 0#_ then .infinity s else .notANumber
      else if e = 0#_ then
        if h : m = 0#_ then .zero s
        else .finite s m.toNat format.minExponent (toNat_pos_of_ne_zero h)
      else .finite s (2 ^ format.mantissaBitsWithoutImplicit + m.toNat)
        (e.toNat - (format.exponentBias + format.mantissaBitsWithoutImplicit))
        (Nat.add_pos_left (pow_pos two_pos _) _) := by
  have sign : UnpackedFloat.Sign.ofBitVec
      (UnpackedFloat.unpackSign (packComponents format s e m)) = s := by
    rw [unpackSign_packComponents, ofBitVec_toBitVec]
  have exponent : UnpackedFloat.unpackExponent (packComponents format s e m) = e :=
    UnpackedFloat.unpackExponent_packComponents
  have mantissa : UnpackedFloat.unpackMantissa (packComponents format s e m) = m :=
    UnpackedFloat.unpackMantissa_packComponents
  generalize packComponents format s e m = b at sign exponent mantissa
  subst sign exponent mantissa
  -- Both sides branch on the same parts, and each branch is compared with its own.
  by_cases special : UnpackedFloat.unpackExponent b = -1#_
  · exact (if_pos special).trans (if_pos special).symm
  refine (if_neg special).trans (.trans ?_ (if_neg special).symm)
  by_cases last : UnpackedFloat.unpackExponent b = 0#_
  · refine (if_pos last).trans (.trans ?_ (if_pos last).symm)
    by_cases zero : UnpackedFloat.unpackMantissa b = 0#_
    · rw [dif_pos zero, dif_pos zero]
    refine (dif_neg zero).trans (.trans ?_ (dif_neg zero).symm)
    rw [UnpackedFloat.finite.injEq]
    refine ⟨rfl, rfl, ?_⟩
    rw [minExponent_eq, last, BitVec.toNat_ofNat, Nat.zero_mod]
    omega
  · refine (if_neg last).trans (.trans ?_ (if_neg last).symm)
    rw [UnpackedFloat.finite.injEq]
    exact ⟨rfl, toNat_one_append _, rfl⟩

@[simp] theorem unpack_packedZero (s : Sign) :
    UnpackedFloat.unpack format (UnpackedFloat.packedZero format s) = .zero s := by
  have other : 0#(format.exponentBits) ≠ -1#_ := by
    simp [Nat.ne_of_gt format.he]
  rw [UnpackedFloat.packedZero, unpack_packComponents]
  exact (if_neg other).trans ((if_pos rfl).trans (dif_pos rfl))

@[simp] theorem unpack_packedNaN :
    UnpackedFloat.unpack format (UnpackedFloat.packedNaN format) = .notANumber := by
  have other : 1#_ <<< (format.mantissaBitsWithoutImplicit - 1) ≠
      0#(format.mantissaBitsWithoutImplicit) := fun equal => by
    have bit := congrArg (·.getLsbD (format.mantissaBitsWithoutImplicit - 1)) equal
    simp [Nat.sub_one_lt (Nat.ne_of_gt format.hm)] at bit
  delta UnpackedFloat.packedNaN
  rw [unpack_packComponents, if_pos rfl]
  exact if_neg other

@[simp] theorem unpack_packedInfinity (s : Sign) :
    UnpackedFloat.unpack format (UnpackedFloat.packedInfinity format s) = .infinity s := by
  rw [UnpackedFloat.packedInfinity, unpack_packComponents, if_pos rfl]
  exact if_pos rfl

theorem toNat_neg_one (n : ℕ) : (-1#n).toNat = 2 ^ n - 1 := by
  rw [BitVec.neg_one_eq_allOnes, BitVec.toNat_allOnes]

theorem zero_le_greatest (s : Sign) : |amount (.zero s)| ≤ greatest format := by
  rw [amount_zero, abs_zero]
  exact greatest_nonneg format

theorem abs_amount {s : Sign} {m : ℕ} {e : ℤ} {pos : 0 < m} :
    |amount (.finite s m e pos)| = m * 2 ^ e := by
  rw [amount_finite, abs_signed, abs_of_nonneg (by positivity)]

/-- With a greater exponent a number is at least a unit beyond the greatest finite one. -/
theorem next_le_amount (high : format.minExponent ≤ topExponent format) {s : Sign} {m : ℕ} {e : ℤ}
    {pos : 0 < m} (canonical : Canonical format (.finite s m e pos)) (large : topExponent format < e) :
    greatest format + 2 ^ topExponent format ≤ |amount (.finite s m e pos)| := by
  have digits : (2 ^ format.mantissaBitsWithoutImplicit : ℚ) ≤ m := by
    exact_mod_cast canonical.2.2.resolve_right (by omega)
  rw [abs_amount]
  calc greatest format + 2 ^ topExponent format
      = 2 ^ format.mantissaBitsWithoutImplicit * 2 ^ (topExponent format + 1) := by
        rw [greatest, mantissaBits_eq, zpow_add_one₀ two_ne_zero]
        ring
    _ ≤ m * 2 ^ e :=
        mul_le_mul digits (zpow_le_zpow_right₀ one_le_two (by omega)) (by positivity) (by positivity)

theorem amount_le_greatest_iff (high : format.minExponent ≤ topExponent format) {s : Sign} {m : ℕ}
    {e : ℤ} {pos : 0 < m} (canonical : Canonical format (.finite s m e pos)) :
    |amount (.finite s m e pos)| ≤ greatest format ↔ e ≤ topExponent format := by
  constructor
  · intro small
    by_contra large
    have more := next_le_amount high canonical (by omega)
    have unit : (0 : ℚ) < 2 ^ topExponent format := by positivity
    linarith
  · intro small
    have digits : (m : ℚ) ≤ 2 ^ format.mantissaBits - 1 := by
      rw [le_sub_iff_add_le]
      exact_mod_cast canonical.1
    rw [abs_amount, greatest]
    exact mul_le_mul digits (zpow_le_zpow_right₀ one_le_two small) (by positivity)
      (sub_nonneg.mpr (one_le_pow₀ one_le_two))

theorem pack_finite {s : Sign} {m : ℕ} {e : ℤ} {pos : 0 < m} :
    UnpackedFloat.pack format (.finite s m e pos) =
      if 2 ^ format.exponentBits ≤
          (e + format.exponentBias + format.mantissaBitsWithoutImplicit).toNat + 1 then
        UnpackedFloat.packedInfinity format s
      else if m.log2 + 1 = format.mantissaBits then
        packComponents format s
          (.ofNat _ (e + format.exponentBias + format.mantissaBitsWithoutImplicit).toNat) (.ofNat _ m)
      else packComponents format s 0#_ (.ofNat _ m) :=
  rfl

/-- Two words of one finite number are equal. -/
theorem eq_of_unpack {b b' : BitVec format.numBits}
    (finite : (UnpackedFloat.unpack format b).isFinite = true)
    (same : UnpackedFloat.unpack format b = UnpackedFloat.unpack format b') : b = b' := by
  have finite' := finite
  rw [same] at finite'
  rw [← packComponents_unpack b, unpack_packComponents] at finite same
  rw [← packComponents_unpack b', unpack_packComponents] at finite' same
  rw [← packComponents_unpack b, ← packComponents_unpack b']
  generalize UnpackedFloat.Sign.ofBitVec (UnpackedFloat.unpackSign b) = s,
    UnpackedFloat.unpackExponent b = e, UnpackedFloat.unpackMantissa b = m at finite same ⊢
  generalize UnpackedFloat.Sign.ofBitVec (UnpackedFloat.unpackSign b') = s',
    UnpackedFloat.unpackExponent b' = e', UnpackedFloat.unpackMantissa b' = m' at finite' same ⊢
  have digits : m.toNat < 2 ^ format.mantissaBitsWithoutImplicit := m.isLt
  have digits' : m'.toNat < 2 ^ format.mantissaBitsWithoutImplicit := m'.isLt
  by_cases special : e = -1#_
  · rw [if_pos special] at finite
    split at finite <;> cases finite
  by_cases special' : e' = -1#_
  · rw [if_pos special'] at finite'
    split at finite' <;> cases finite'
  rw [if_neg special, if_neg special'] at same
  suffices s = s' ∧ e = e' ∧ m = m' by
    obtain ⟨rfl, rfl, rfl⟩ := this
    rfl
  -- Only the word with the least exponent has no digit before its digits.
  by_cases last : e = 0#_ <;> by_cases last' : e' = 0#_
  · rw [if_pos last, if_pos last'] at same
    by_cases zero : m = 0#_ <;> by_cases zero' : m' = 0#_
    · rw [dif_pos zero, dif_pos zero', UnpackedFloat.zero.injEq] at same
      exact ⟨same, last.trans last'.symm, zero.trans zero'.symm⟩
    · rw [dif_pos zero, dif_neg zero'] at same
      cases same
    · rw [dif_neg zero, dif_pos zero'] at same
      cases same
    · rw [dif_neg zero, dif_neg zero', UnpackedFloat.finite.injEq] at same
      exact ⟨same.1, last.trans last'.symm, BitVec.eq_of_toNat_eq same.2.1⟩
  · rw [if_pos last, if_neg last'] at same
    by_cases zero : m = 0#_
    · rw [dif_pos zero] at same
      cases same
    · rw [dif_neg zero, UnpackedFloat.finite.injEq] at same
      omega
  · rw [if_neg last, if_pos last'] at same
    by_cases zero' : m' = 0#_
    · rw [dif_pos zero'] at same
      cases same
    · rw [dif_neg zero', UnpackedFloat.finite.injEq] at same
      omega
  · rw [if_neg last, if_neg last', UnpackedFloat.finite.injEq] at same
    obtain ⟨sign, mantissa, exponent⟩ := same
    exact ⟨sign, BitVec.eq_of_toNat_eq (by omega), BitVec.eq_of_toNat_eq (by omega)⟩

theorem unpack_pack (high : format.minExponent ≤ topExponent format) {f : UnpackedFloat}
    (canonical : Canonical format f) (small : |amount f| ≤ greatest format) :
    UnpackedFloat.unpack format (UnpackedFloat.pack format f) = f := by
  match f with
  | .zero s => exact unpack_packedZero s
  | .finite s m e pos =>
    have fits := (amount_le_greatest_iff high canonical).mp small
    have least := minExponent_eq format
    have range := Nat.two_pow_pos format.exponentBits
    obtain ⟨short, low, many⟩ := canonical
    rw [topExponent] at fits high
    rw [two_pow_mantissaBits] at short
    rw [pack_finite, if_neg (by omega)]
    by_cases normal : 2 ^ format.mantissaBitsWithoutImplicit ≤ m
    · have biased : (BitVec.ofNat format.exponentBits
          (e + format.exponentBias + format.mantissaBitsWithoutImplicit).toNat).toNat =
            (e + format.exponentBias + format.mantissaBitsWithoutImplicit).toNat := by
        rw [BitVec.toNat_ofNat, Nat.mod_eq_of_lt (by omega)]
      have digits : (BitVec.ofNat format.mantissaBitsWithoutImplicit m).toNat =
          m - 2 ^ format.mantissaBitsWithoutImplicit := by
        rw [BitVec.toNat_ofNat, Nat.mod_eq_sub_mod normal, Nat.mod_eq_of_lt (by omega)]
      have log2 : m.log2 = format.mantissaBitsWithoutImplicit :=
        (Nat.log2_eq_iff pos.ne').mpr ⟨normal, by rw [pow_succ]; omega⟩
      rw [if_pos (by rw [log2, mantissaBits_eq]), unpack_packComponents, if_neg, if_neg]
      · rw [UnpackedFloat.finite.injEq, biased, digits]
        exact ⟨rfl, by omega, by omega⟩
      · rw [← BitVec.toNat_inj, biased, BitVec.toNat_ofNat, Nat.zero_mod]
        omega
      · rw [← BitVec.toNat_inj, biased, toNat_neg_one]
        omega
    · have digits : (BitVec.ofNat format.mantissaBitsWithoutImplicit m).toNat = m := by
        rw [BitVec.toNat_ofNat, Nat.mod_eq_of_lt (by omega)]
      have log2 : m.log2 < format.mantissaBitsWithoutImplicit :=
        (Nat.log2_lt pos.ne').mpr (not_le.mp normal)
      rw [if_neg (by rw [mantissaBits_eq]; omega), unpack_packComponents, if_neg, if_pos rfl, dif_neg]
      · rw [UnpackedFloat.finite.injEq, digits]
        exact ⟨rfl, rfl, by omega⟩
      · rw [← BitVec.toNat_inj, digits]
        simpa using pos.ne'
      · rw [← BitVec.toNat_inj, toNat_neg_one, BitVec.toNat_ofNat, Nat.zero_mod]
        have := Nat.one_lt_two_pow format.he.ne'
        omega

/-- A number of the grid beyond the greatest finite one becomes infinite. -/
theorem unpack_pack_large (high : format.minExponent ≤ topExponent format) {f : UnpackedFloat}
    (canonical : Canonical format f) (large : ¬ |amount f| ≤ greatest format) :
    ∃ s, UnpackedFloat.unpack format (UnpackedFloat.pack format f) = .infinity s := by
  match f with
  | .zero s => exact (large (zero_le_greatest s)).elim
  | .finite s m e pos =>
    rw [amount_le_greatest_iff high canonical] at large
    refine ⟨s, ?_⟩
    rw [pack_finite, if_pos (by rw [topExponent] at large; omega), unpack_packedInfinity]

theorem Canonical.isFinite {f : UnpackedFloat} (canonical : Canonical format f) :
    f.isFinite = true := by
  cases f <;> first | rfl | exact canonical.elim

theorem isFinite_pack (high : format.minExponent ≤ topExponent format) {f : UnpackedFloat}
    (canonical : Canonical format f) :
    (UnpackedFloat.unpack format (UnpackedFloat.pack format f)).isFinite = true ↔
      |amount f| ≤ greatest format := by
  constructor
  · intro finite
    by_contra large
    obtain ⟨s, infinite⟩ := unpack_pack_large high canonical large
    rw [infinite] at finite
    cases finite
  · intro small
    rw [unpack_pack high canonical small]
    exact canonical.isFinite

theorem isNaN_pack (high : format.minExponent ≤ topExponent format) {f : UnpackedFloat}
    (canonical : Canonical format f) :
    (UnpackedFloat.unpack format (UnpackedFloat.pack format f)).isNaN = false := by
  by_cases small : |amount f| ≤ greatest format
  · rw [unpack_pack high canonical small]
    cases f <;> first | rfl | exact canonical.elim
  · obtain ⟨s, infinite⟩ := unpack_pack_large high canonical small
    rw [infinite]
    rfl

/-- A number a little beyond the greatest finite one is rounded to it. -/
theorem Rounds.amount_le (high : format.minExponent ≤ topExponent format) {f : UnpackedFloat} {x : ℚ}
    (r : Rounds format x f) (small : |x| < greatest format + 2 ^ topExponent format / 2) :
    |amount f| ≤ greatest format := by
  have grid := onGridOf_greatest high
  rcases le_or_gt |x| (greatest format) with inside | outside
  · exact r.abs_le grid inside
  match f, r with
  | .zero s, _ => exact zero_le_greatest s
  | .finite s m e pos, r =>
    rw [amount_le_greatest_iff high r.canonical]
    by_contra large
    have more := next_le_amount high r.canonical (by omega)
    have far := abs_sub_abs_le_abs_sub (amount (.finite s m e pos)) x
    have near : |amount (.finite s m e pos) - x| ≤ |x| - greatest format := by
      rcases le_total 0 x with positive | negative
      · rw [abs_of_nonneg positive] at outside ⊢
        refine (r.nearest _ grid).trans ?_
        rw [abs_of_nonpos (by linarith)]
        linarith
      · rw [abs_of_nonpos negative] at outside ⊢
        refine (r.nearest _ (grid.signed .negative)).trans ?_
        rw [signed, abs_of_nonneg (by linarith)]
        linarith
    linarith

theorem isFinite_pack_special {f : UnpackedFloat} (special : f.isFinite = false) :
    (UnpackedFloat.unpack format (UnpackedFloat.pack format f)).isFinite = false := by
  match f with
  | .infinity s =>
    show (UnpackedFloat.unpack format (UnpackedFloat.packedInfinity format s)).isFinite = false
    rw [unpack_packedInfinity]
    rfl
  | .notANumber =>
    show (UnpackedFloat.unpack format (UnpackedFloat.packedNaN format)).isFinite = false
    rw [unpack_packedNaN]
    rfl

/-- A number of a format that an operation with the exact result `x` gives. -/
structure Settles (format : Format) (x : ℚ) (f : UnpackedFloat) : Prop where
  rounds : f.isFinite = true → Rounds format x f
  bounded : |x| < greatest format + 2 ^ topExponent format / 2 → f.isFinite = true
  numeric : f.isNaN = false

theorem Rounds.settles (high : format.minExponent ≤ topExponent format) {f : UnpackedFloat} {x : ℚ}
    (r : Rounds format x f) :
    Settles format x (UnpackedFloat.unpack format (UnpackedFloat.pack format f)) where
  rounds finite := by
    have small := (isFinite_pack high r.canonical).mp finite
    rwa [unpack_pack high r.canonical small]
  bounded small := (isFinite_pack high r.canonical).mpr (r.amount_le high small)
  numeric := isNaN_pack high r.canonical

theorem canonical_unpack (high : format.minExponent ≤ topExponent format)
    {b : BitVec format.numBits} (finite : (UnpackedFloat.unpack format b).isFinite = true) :
    Canonical format (UnpackedFloat.unpack format b) ∧
      |amount (UnpackedFloat.unpack format b)| ≤ greatest format := by
  have parts := packComponents_unpack b
  generalize UnpackedFloat.Sign.ofBitVec _ = s, UnpackedFloat.unpackExponent _ = e,
    UnpackedFloat.unpackMantissa _ = m at parts
  have digits : m.toNat < 2 ^ format.mantissaBitsWithoutImplicit := m.isLt
  have least := minExponent_eq format
  rw [← parts, unpack_packComponents] at finite ⊢
  by_cases special : e = -1#_
  · rw [if_pos special] at finite
    split at finite <;> cases finite
  rw [if_neg special]
  by_cases last : e = 0#_
  · rw [if_pos last]
    by_cases zero : m = 0#_
    · rw [dif_pos zero]
      exact ⟨trivial, zero_le_greatest s⟩
    · rw [dif_neg zero]
      have canonical (pos : 0 < m.toNat) :
          Canonical format (.finite s m.toNat format.minExponent pos) :=
        ⟨by rw [two_pow_mantissaBits]; omega, le_rfl, .inr rfl⟩
      exact ⟨canonical _, (amount_le_greatest_iff high (canonical _)).mpr high⟩
  · rw [if_neg last]
    have low : e.toNat ≠ 0 := by
      intro h
      exact last (BitVec.toNat_inj.mp (by rw [h, BitVec.toNat_ofNat, Nat.zero_mod]))
    have top : e.toNat ≠ 2 ^ format.exponentBits - 1 := by
      intro h
      exact special (BitVec.toNat_inj.mp (by rw [h, toNat_neg_one]))
    have width : e.toNat < 2 ^ format.exponentBits := e.isLt
    have canonical (pos : 0 < 2 ^ format.mantissaBitsWithoutImplicit + m.toNat) :
        Canonical format (.finite s (2 ^ format.mantissaBitsWithoutImplicit + m.toNat)
          (e.toNat - (format.exponentBias + format.mantissaBitsWithoutImplicit)) pos) :=
      ⟨by rw [two_pow_mantissaBits]; omega, by omega, .inl (by omega)⟩
    exact ⟨canonical _, (amount_le_greatest_iff high (canonical _)).mpr (by rw [topExponent]; omega)⟩

end Flipbook.Number

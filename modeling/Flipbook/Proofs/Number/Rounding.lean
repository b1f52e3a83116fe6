import Flipbook.Number.Scalar
import Mathlib.Algebra.Order.Field.Power
import Mathlib.Tactic.FieldSimp
import Mathlib.Tactic.Linarith
import Mathlib.Tactic.Positivity
import Mathlib.Tactic.Ring

/-!
# Rounding

What rounding to a binary format gives, as a rational number: a number of its grid that no other number
of the grid is nearer than (`Rounds.nearest`), off by at most half a unit in the last place
(`Rounds.error`). Exponents have no upper end here.
-/

namespace Flipbook.Number

open Float.Model (Format UnpackedFloat totalExponent)
open Float.Model.UnpackedFloat (Sign Accuracy ExtendedMantissa)

/-! ### Amounts -/

/-- A number with a sign. -/
def signed : Sign → ℚ → ℚ
  | .negative, x => -x
  | .positive, x => x

theorem signed_mul (s : Sign) (x y : ℚ) : signed s (x * y) = signed s x * y := by
  cases s
  · exact (neg_mul x y).symm
  · rfl

theorem cast_apply (s : Sign) (n : ℤ) : (s.apply n : ℚ) = signed s n := by
  cases s
  · exact Int.cast_neg n
  · rfl

theorem abs_signed (s : Sign) (x : ℚ) : |signed s x| = |x| := by
  cases s
  · exact abs_neg x
  · rfl

theorem abs_signed_sub_signed (s : Sign) (x y : ℚ) : |signed s x - signed s y| = |x - y| := by
  cases s
  · rw [signed, signed, neg_sub_neg, abs_sub_comm]
  · rfl

/-- The rational number that a number stands for. What is not finite stands for 0. -/
def amount : UnpackedFloat → ℚ
  | .finite sign mantissa exponent _ => signed sign (mantissa * 2 ^ exponent)
  | _ => 0

@[simp] theorem amount_zero (s : Sign) : amount (.zero s) = 0 := rfl

theorem amount_finite (s : Sign) (m : ℕ) (e : ℤ) (pos : 0 < m) :
    amount (.finite s m e pos) = signed s (m * 2 ^ e) := rfl

/-- The numbers with no more digits than a format has, none behind its last binary place. -/
def OnGridOf (format : Format) (x : ℚ) : Prop :=
  ∃ n q : ℤ, |n| ≤ 2 ^ format.mantissaBits ∧ format.minExponent ≤ q ∧ x = n * 2 ^ q

/-- Finite, with as many of the digits of the format as its last binary place allows. -/
def Canonical (format : Format) : UnpackedFloat → Prop
  | .finite _ mantissa exponent _ =>
    mantissa < 2 ^ format.mantissaBits ∧ format.minExponent ≤ exponent ∧
      (2 ^ format.mantissaBitsWithoutImplicit ≤ mantissa ∨ exponent = format.minExponent)
  | .zero _ => True
  | _ => False

variable {format : Format}

theorem mantissaBits_eq (format : Format) :
    format.mantissaBits = format.mantissaBitsWithoutImplicit + 1 :=
  Nat.add_comm 1 _

theorem two_pow_mantissaBits (format : Format) :
    2 ^ format.mantissaBits = 2 * 2 ^ format.mantissaBitsWithoutImplicit := by
  rw [mantissaBits_eq, pow_succ']

theorem minExponent_nonpos (format : Format) : format.minExponent ≤ 0 := by
  have digits := format.hm
  have range : (0 : ℤ) < 2 ^ (format.exponentBits - 1) := by positivity
  simp only [Format.minExponent, mantissaBits_eq]
  push_cast
  omega

theorem onGridOf_zero : OnGridOf format 0 :=
  ⟨0, 0, by positivity, minExponent_nonpos format, by simp⟩

theorem OnGridOf.signed {x : ℚ} (s : Sign) (grid : OnGridOf format x) :
    OnGridOf format (signed s x) := by
  obtain ⟨n, q, short, low, rfl⟩ := grid
  cases s
  · exact ⟨-n, q, by rwa [abs_neg], low, by rw [Number.signed]; push_cast; ring⟩
  · exact ⟨n, q, short, low, rfl⟩

theorem Canonical.onGrid {f : UnpackedFloat} (canonical : Canonical format f) :
    OnGridOf format (amount f) := by
  cases f with
  | finite s m e _ =>
    refine OnGridOf.signed s ⟨m, e, ?_, canonical.2.1, by push_cast; rfl⟩
    rw [Nat.abs_cast]
    exact_mod_cast canonical.1.le
  | zero _ => exact onGridOf_zero
  | infinity _ => exact canonical.elim
  | notANumber => exact canonical.elim

/-! ### Cut mantissas -/

/-- The numbers that a mantissa of some accuracy is cut from. -/
def Describes (mantissa : ℕ) : Accuracy → ℚ → Prop
  | .exact, x => x = mantissa
  | .inexact .lt, x => mantissa < x ∧ x < mantissa + 1 / 2
  | .inexact .eq, x => x = mantissa + 1 / 2
  | .inexact .gt, x => mantissa + 1 / 2 < x ∧ x < mantissa + 1

namespace Describes

variable {m : ℕ} {a : Accuracy} {x : ℚ}

theorem exact (m : ℕ) : Describes m .exact m := rfl

theorem floor (d : Describes m a x) : m ≤ x ∧ x < m + 1 := by
  match a, d with
  | .exact, rfl => exact ⟨le_rfl, by linarith⟩
  | .inexact .lt, ⟨low, high⟩ => exact ⟨low.le, by linarith⟩
  | .inexact .eq, rfl => constructor <;> linarith
  | .inexact .gt, ⟨low, high⟩ => exact ⟨by linarith, high⟩

theorem rounded (d : Describes m a x) : |(a.roundToNearestEven m : ℚ) - x| ≤ 1 / 2 := by
  rw [abs_le]
  match a, d with
  | .exact, rfl => constructor <;> simp [Accuracy.roundToNearestEven]
  | .inexact .lt, ⟨low, high⟩ => constructor <;> simp only [Accuracy.roundToNearestEven] <;> linarith
  | .inexact .eq, rfl =>
    -- A tie goes half a unit up or down.
    rcases Nat.mod_two_eq_zero_or_one m with even | odd
    · constructor <;> simp only [Accuracy.roundToNearestEven, even] <;> push_cast <;> linarith
    · constructor <;> simp only [Accuracy.roundToNearestEven, odd] <;> push_cast <;> linarith
  | .inexact .gt, ⟨low, high⟩ =>
    constructor <;> simp only [Accuracy.roundToNearestEven] <;> push_cast <;> linarith

/-- The remainder of a division says how the quotient was cut. -/
theorem quotient (n : ℕ) {d : ℕ} (pos : 0 < d) :
    Describes (n / d) (UnpackedFloat.accuracyOfFraction (n % d) d) (n / d) := by
  have room : (0 : ℚ) < d := by exact_mod_cast pos
  have cut : (n / d : ℚ) = (n / d : ℕ) + (n % d : ℕ) / d := by
    have whole : (n : ℚ) = d * (n / d : ℕ) + (n % d : ℕ) := by
      exact_mod_cast (Nat.div_add_mod n d).symm
    field_simp
    linarith
  have below : ((n % d : ℕ) : ℚ) / d < 1 := by
    rw [div_lt_one room]
    exact_mod_cast Nat.mod_lt n pos
  rw [cut]
  unfold UnpackedFloat.accuracyOfFraction
  by_cases none : n % d = 0
  · simp [none, Describes]
  have above : (0 : ℚ) < (n % d : ℕ) / d :=
    div_pos (by exact_mod_cast Nat.pos_of_ne_zero none) room
  rw [if_neg none]
  cases order : compare (2 * (n % d)) d with
  | lt =>
    have half : ((n % d : ℕ) : ℚ) / d < 1 / 2 := by
      rw [div_lt_div_iff₀ room two_pos]
      have := Nat.compare_eq_lt.mp order
      norm_cast
      omega
    constructor <;> linarith
  | eq =>
    have half : ((n % d : ℕ) : ℚ) / d = 1 / 2 := by
      rw [div_eq_div_iff room.ne' two_ne_zero]
      have := Nat.compare_eq_eq.mp order
      norm_cast
      omega
    rw [half]
    rfl
  | gt =>
    have half : 1 / 2 < ((n % d : ℕ) : ℚ) / d := by
      rw [div_lt_div_iff₀ two_pos room]
      have := Nat.compare_eq_gt.mp order
      norm_cast
      omega
    constructor <;> linarith

end Describes

theorem accuracy_ofMantissaAndAccuracy (m : ℕ) (a : Accuracy) :
    (ExtendedMantissa.ofMantissaAndAccuracy m a).accuracy = a ∧
      (ExtendedMantissa.ofMantissaAndAccuracy m a).mantissa = m := by
  match a with
  | .exact | .inexact .lt | .inexact .eq | .inexact .gt => exact ⟨rfl, rfl⟩

theorem describes_shiftRightOne {em : ExtendedMantissa} {x : ℚ}
    (d : Describes em.mantissa em.accuracy x) :
    Describes em.shiftRightOne.mantissa em.shiftRightOne.accuracy (x / 2) := by
  obtain ⟨m, round, sticky⟩ := em
  obtain ⟨half, last, rfl⟩ : ∃ (half : ℕ) (last : Bool), m = 2 * half + last.toNat :=
    ⟨m / 2, m % 2 != 0, by rcases Nat.mod_two_eq_zero_or_one m with h | h <;> simp [h] <;> omega⟩
  have shifted : ExtendedMantissa.shiftRightOne ⟨2 * half + last.toNat, round, sticky⟩ =
      ⟨half, last, round || sticky⟩ := by
    cases last <;> simp [ExtendedMantissa.shiftRightOne]
    omega
  rw [shifted]
  cases last <;> cases round <;> cases sticky <;>
    simp only [Describes, ExtendedMantissa.accuracy, Bool.toNat_false, Bool.toNat_true,
      Bool.or_false, Bool.or_true] at d ⊢ <;>
    push_cast at d <;>
    first
    | linarith
    | constructor <;> linarith

theorem describes_shiftRight {em : ExtendedMantissa} {x : ℚ}
    (d : Describes em.mantissa em.accuracy x) (n : ℕ) :
    Describes (em >>> n).mantissa (em >>> n).accuracy (x / 2 ^ n) := by
  induction n with
  | zero =>
    rw [pow_zero, div_one]
    exact d
  | succ n ih =>
    rw [pow_succ, ← div_div]
    exact describes_shiftRightOne ih

/-- A mantissa that is shifted and then rounded is rounded once. -/
theorem rounded_shiftRight {m : ℕ} {a : Accuracy} {x : ℚ} (cut : Describes m a x) (n : ℕ) :
    |((ExtendedMantissa.ofMantissaAndAccuracy m a >>> n).roundedMantissa : ℚ) - x / 2 ^ n| ≤
      1 / 2 := by
  obtain ⟨accuracy, mantissa⟩ := accuracy_ofMantissaAndAccuracy m a
  refine (describes_shiftRight ?_ n).rounded
  rwa [accuracy, mantissa]

/-! ### Rounding to the grid -/

/-- A number of the grid that `x` is rounded to. -/
structure Rounds (format : Format) (x : ℚ) (f : UnpackedFloat) : Prop where
  canonical : Canonical format f
  nearest : ∀ z, OnGridOf format z → |amount f - x| ≤ |z - x|
  error : |amount f - x| ≤ max (|x| / 2 ^ format.mantissaBits) (2 ^ (format.minExponent - 1))

/-- A number of the grid stays what it is. -/
theorem Canonical.rounds {f : UnpackedFloat} (canonical : Canonical format f) :
    Rounds format (amount f) f where
  canonical := canonical
  nearest z _ := by
    rw [sub_self, abs_zero]
    exact abs_nonneg _
  error := by
    rw [sub_self, abs_zero]
    positivity

theorem Rounds.eq_of_onGrid {f : UnpackedFloat} {x : ℚ} (r : Rounds format x f)
    (grid : OnGridOf format x) : amount f = x := by
  have := r.nearest x grid
  rw [sub_self, abs_zero] at this
  exact sub_eq_zero.mp (abs_nonpos_iff.mp this)

/-! Rounding never passes a number of the grid. -/

theorem Rounds.le {f : UnpackedFloat} {x z : ℚ} (r : Rounds format x f)
    (grid : OnGridOf format z) (le : x ≤ z) : amount f ≤ z := by
  have near := r.nearest z grid
  rw [abs_of_nonneg (sub_nonneg.mpr le)] at near
  linarith [(abs_le.mp near).2]

theorem Rounds.ge {f : UnpackedFloat} {x z : ℚ} (r : Rounds format x f)
    (grid : OnGridOf format z) (le : z ≤ x) : z ≤ amount f := by
  have near := r.nearest z grid
  rw [abs_of_nonpos (sub_nonpos.mpr le)] at near
  linarith [(abs_le.mp near).1]

theorem Rounds.abs_le {f : UnpackedFloat} {x z : ℚ} (r : Rounds format x f)
    (grid : OnGridOf format z) (le : |x| ≤ z) : |amount f| ≤ z := by
  obtain ⟨high, low⟩ := abs_le'.mp le
  have above := r.ge (grid.signed .negative) (neg_le.mp low)
  exact abs_le'.mpr ⟨r.le grid high, neg_le.mpr above⟩

/-- Of two numbers the lesser is not rounded to the greater number. -/
theorem Rounds.mono {f g : UnpackedFloat} {x y : ℚ} (r : Rounds format x f)
    (s : Rounds format y g) (less : x < y) : amount f ≤ amount g := by
  by_contra above
  -- Both would be rounded past the middle of the two results.
  have up := sq_le_sq.mpr (r.nearest _ s.canonical.onGrid)
  have down := sq_le_sq.mpr (s.nearest _ r.canonical.onGrid)
  nlinarith

/-- A number of the grid has no digits behind the last binary place. -/
theorem OnGridOf.exists_int {x : ℚ} (grid : OnGridOf format x) :
    ∃ n : ℤ, x = n * 2 ^ format.minExponent := by
  obtain ⟨n, q, -, low, rfl⟩ := grid
  obtain ⟨k, rfl⟩ := Int.le.dest low
  refine ⟨n * 2 ^ k, ?_⟩
  rw [zpow_add₀ two_ne_zero, zpow_natCast]
  push_cast
  ring

/-- Where nothing lies behind the last binary place, the error is small against the number. -/
theorem Rounds.error_of_int {f : UnpackedFloat} {x : ℚ} (r : Rounds format x f) {n : ℤ}
    (whole : x = n * 2 ^ format.minExponent) :
    |amount f - x| ≤ |x| / 2 ^ format.mantissaBits := by
  rcases le_max_iff.mp r.error with small | last
  · exact small
  obtain ⟨k, value⟩ := r.canonical.onGrid.exists_int
  have same : k = n := by
    have unit : (0 : ℚ) < 2 ^ format.minExponent := by positivity
    rw [value, whole, ← sub_mul, abs_mul, abs_of_pos unit, zpow_sub_one₀ two_ne_zero] at last
    have half : |(k : ℚ) - n| ≤ 1 / 2 := by
      rw [← mul_le_mul_iff_left₀ unit]
      linarith
    have : |(k : ℚ) - n| < 1 := half.trans_lt (by norm_num)
    exact sub_eq_zero.mp (Int.abs_lt_one_iff.mp (by exact_mod_cast this))
  rw [value, whole, same, sub_self, abs_zero]
  positivity

/-- A whole number within one half is a nearest one. -/
theorem nearest_int {x : ℚ} {r : ℤ} (close : |(r : ℚ) - x| ≤ 1 / 2) (n : ℤ) :
    |(r : ℚ) - x| ≤ |(n : ℚ) - x| := by
  rcases eq_or_ne r n with rfl | ne
  · exact le_rfl
  have apart : (1 : ℚ) ≤ |(r : ℚ) - n| := by
    exact_mod_cast Int.one_le_abs (sub_ne_zero.mpr ne)
  have := abs_sub_le (r : ℚ) x n
  rw [abs_sub_comm x] at this
  linarith

/-- No number is nearer that lies inside a whole one, seen from outside of it. -/
theorem nearest_of_le {x : ℚ} {r b : ℤ} (close : |(r : ℚ) - x| ≤ 1 / 2) (far : b ≤ |x|) {z : ℚ}
    (inner : |z| ≤ b) : |(r : ℚ) - x| ≤ |z - x| := by
  have out : |x| - b ≤ |z - x| := by
    have := abs_sub_abs_le_abs_sub x z
    rw [abs_sub_comm] at this
    linarith
  rcases le_total 0 x with pos | neg
  · have := nearest_int close b
    rw [abs_of_nonneg pos] at far out
    rw [abs_sub_comm (b : ℚ), abs_of_nonneg (sub_nonneg.mpr far)] at this
    exact this.trans out
  · have := nearest_int close (-b)
    rw [abs_of_nonpos neg] at far out
    push_cast at this
    rw [abs_of_nonneg (by linarith : 0 ≤ -(b : ℚ) - x)] at this
    linarith

variable {f : UnpackedFloat} {x : ℚ} {r t : ℤ}

/-- Rounded to a multiple of `2 ^ t`, which is the last binary place or small against the number. -/
theorem Rounds.of_place (canonical : Canonical format f) (value : amount f = r * 2 ^ t)
    (close : |(r : ℚ) - x| ≤ 1 / 2)
    (place : t = format.minExponent ∨
      format.minExponent ≤ t ∧ 2 ^ format.mantissaBitsWithoutImplicit ≤ |x|) :
    Rounds format (x * 2 ^ t) f := by
  have unit : (0 : ℚ) < 2 ^ t := by positivity
  have scale (z : ℚ) : |z * 2 ^ t - x * 2 ^ t| = |z - x| * 2 ^ t := by
    rw [← sub_mul, abs_mul, abs_of_pos unit]
  have digits : (2 : ℚ) ^ format.mantissaBits = 2 * 2 ^ format.mantissaBitsWithoutImplicit := by
    exact_mod_cast two_pow_mantissaBits format
  refine ⟨canonical, fun z grid => ?_, ?_⟩
  · obtain ⟨n, q, short, low, rfl⟩ := grid
    have same : (n : ℚ) * 2 ^ q = n * 2 ^ (q - t) * 2 ^ t := by
      rw [mul_assoc, ← zpow_add₀ two_ne_zero, sub_add_cancel]
    rw [same, value, scale, scale]
    refine mul_le_mul_of_nonneg_right ?_ unit.le
    rcases le_or_gt t q with fine | coarse
    · obtain ⟨k, rfl⟩ := Int.le.dest fine
      have := nearest_int close (n * 2 ^ k)
      push_cast at this
      rwa [add_sub_cancel_left, zpow_natCast]
    · have far : 2 ^ format.mantissaBitsWithoutImplicit ≤ |x| :=
        (place.resolve_left (by omega)).2
      refine nearest_of_le (b := 2 ^ format.mantissaBitsWithoutImplicit) close
        (by exact_mod_cast far) ?_
      have short : |(n : ℚ)| ≤ 2 ^ format.mantissaBits := by exact_mod_cast short
      have half : (2 : ℚ) ^ (q - t) ≤ 2 ^ (-1 : ℤ) := zpow_le_zpow_right₀ one_le_two (by omega)
      rw [abs_mul, abs_of_pos (by positivity : (0 : ℚ) < 2 ^ (q - t))]
      calc |(n : ℚ)| * 2 ^ (q - t) ≤ 2 ^ format.mantissaBits * 2 ^ (-1 : ℤ) := by gcongr
        _ = ((2 ^ format.mantissaBitsWithoutImplicit : ℤ) : ℚ) := by
          rw [digits, zpow_neg_one]
          push_cast
          ring
  · rw [value, scale, abs_mul, abs_of_pos unit]
    rcases place with rfl | ⟨-, far⟩
    · refine le_max_of_le_right ?_
      rw [zpow_sub_one₀ two_ne_zero]
      linarith [mul_le_mul_of_nonneg_right close unit.le]
    · refine le_max_of_le_left ?_
      have half : 1 / 2 ≤ |x| / 2 ^ format.mantissaBits := by
        rw [digits, div_le_div_iff₀ (by norm_num) (by positivity)]
        linarith
      calc |(r : ℚ) - x| * 2 ^ t ≤ |x| / 2 ^ format.mantissaBits * 2 ^ t := by
            gcongr
            exact close.trans half
        _ = |x| * 2 ^ t / 2 ^ format.mantissaBits := by ring

/-! ### Shifting to the last binary place -/

/-- The place that the last digit has. -/
theorem target_eq (format : Format) (m : ℕ) (e : ℤ) :
    format.targetExponent (totalExponent m e) =
      max (m.log2 + e - format.mantissaBitsWithoutImplicit) format.minExponent := by
  simp only [Format.targetExponent, totalExponent, mantissaBits_eq]
  push_cast
  congr 1
  omega

theorem shiftToTargetExponent_eq {m : ℕ} {e t : ℤ} {a : Accuracy}
    (target : format.targetExponent (totalExponent m e) = t) (le : e ≤ t) :
    UnpackedFloat.shiftToTargetExponent format m e a =
      (ExtendedMantissa.ofMantissaAndAccuracy m a >>> (t - e).toNat, t) := by
  unfold UnpackedFloat.shiftToTargetExponent UnpackedFloat.shiftToExponent
  simp only [target, Int.toNat_of_nonneg (sub_nonneg.mpr le), add_sub_cancel]

/-- What rounding makes of a rounded mantissa, which may have been carried to one digit more. -/
def settled (format : Format) (sign : Sign) (m : ℕ) (e : ℤ) : UnpackedFloat :=
  let (em, e) := UnpackedFloat.shiftToTargetExponent format m e .exact
  if h : em.mantissa = 0 then .zero sign else .finite sign em.mantissa e (Nat.pos_of_ne_zero h)

theorem roundWithAccuracy_eq {sign : Sign} {m : ℕ} {e t : ℤ} {a : Accuracy}
    (target : format.targetExponent (totalExponent m e) = t) (le : e ≤ t) :
    UnpackedFloat.roundWithAccuracy format sign m e a =
      settled format sign
        (ExtendedMantissa.ofMantissaAndAccuracy m a >>> (t - e).toNat).roundedMantissa t := by
  unfold UnpackedFloat.roundWithAccuracy
  rw [shiftToTargetExponent_eq target le]
  rfl

theorem canonical_settled (sign : Sign) {r : ℕ} {t : ℤ} (short : r ≤ 2 ^ format.mantissaBits)
    (place : t = format.minExponent ∨
      format.minExponent ≤ t ∧ 2 ^ format.mantissaBitsWithoutImplicit ≤ r) :
    Canonical format (settled format sign r t) ∧
      amount (settled format sign r t) = signed sign (r * 2 ^ t) := by
  rcases short.lt_or_eq with less | rfl
  · have target : format.targetExponent (totalExponent r t) = t := by
      rw [target_eq]
      rcases eq_or_ne r 0 with rfl | ne
      · have := Nat.two_pow_pos format.mantissaBitsWithoutImplicit
        rw [Nat.log2_zero]
        omega
      have few := (Nat.log2_lt ne).mpr less
      have (big : 2 ^ format.mantissaBitsWithoutImplicit ≤ r) := (Nat.le_log2 ne).mpr big
      rw [mantissaBits_eq] at few
      omega
    unfold settled
    rw [shiftToTargetExponent_eq target le_rfl, sub_self]
    show Canonical format
        (if h : r = 0 then .zero sign else .finite sign r t (Nat.pos_of_ne_zero h)) ∧
      amount (if h : r = 0 then .zero sign else .finite sign r t (Nat.pos_of_ne_zero h)) = _
    by_cases vanishes : r = 0
    · rw [dif_pos vanishes, vanishes, Nat.cast_zero, zero_mul]
      exact ⟨trivial, by cases sign <;> simp [signed]⟩
    · rw [dif_neg vanishes]
      exact ⟨⟨less, by omega, by omega⟩, rfl⟩
  · have target : format.targetExponent (totalExponent (2 ^ format.mantissaBits) t) = t + 1 := by
      rw [target_eq, Nat.log2_two_pow, mantissaBits_eq]
      push_cast
      omega
    have half : 2 ^ format.mantissaBits / 2 = 2 ^ format.mantissaBitsWithoutImplicit := by
      rw [two_pow_mantissaBits, Nat.mul_div_cancel_left _ two_pos]
    unfold settled
    rw [shiftToTargetExponent_eq target (by omega), add_sub_cancel_left]
    show Canonical format (if h : 2 ^ format.mantissaBits / 2 = 0 then .zero sign
        else .finite sign (2 ^ format.mantissaBits / 2) (t + 1) (Nat.pos_of_ne_zero h)) ∧
      amount (if h : 2 ^ format.mantissaBits / 2 = 0 then .zero sign
        else .finite sign (2 ^ format.mantissaBits / 2) (t + 1) (Nat.pos_of_ne_zero h)) = _
    rw [dif_neg (by rw [half]; positivity)]
    refine ⟨⟨?_, by omega, .inl half.ge⟩, ?_⟩
    · exact Nat.div_lt_self (by positivity) one_lt_two
    · rw [amount_finite, half, zpow_add_one₀ two_ne_zero, two_pow_mantissaBits]
      congr 1
      push_cast
      ring

/-- A mantissa at its last place lies between the least and the greatest with all digits. -/
theorem digits_of_target {m k d : ℕ} {e low : ℤ} {x : ℚ} (pos : 0 < d) (le : m ≤ x)
    (lt : x < m + 1) (target : max (m.log2 + e - d) low = e + k) :
    x / 2 ^ k < 2 ^ (d + 1) ∧ (e + k = low ∨ low ≤ e + k ∧ 2 ^ d ≤ x / 2 ^ k) := by
  constructor
  · rw [div_lt_iff₀ (by positivity), ← pow_add]
    have : m + 1 ≤ 2 ^ (d + 1 + k) :=
      calc m + 1 ≤ 2 ^ (m.log2 + 1) := Nat.lt_log2_self
        _ ≤ 2 ^ (d + 1 + k) := Nat.pow_le_pow_right (by decide) (by omega)
    exact lt.trans_le (by exact_mod_cast this)
  · rcases le_or_gt (m.log2 + e - d) low with last | before
    · exact .inl (by omega)
    refine .inr ⟨by omega, ?_⟩
    rw [le_div_iff₀ (by positivity), ← pow_add]
    have digits : m.log2 = d + k := by omega
    have ne : m ≠ 0 := by
      rintro rfl
      rw [Nat.log2_zero] at digits
      omega
    have := Nat.log2_self_le ne
    rw [digits] at this
    exact le_trans (by exact_mod_cast this) le

/-- A number known by a mantissa and its accuracy, in a place not before the last one it keeps. -/
theorem rounds_roundWithAccuracy {sign : Sign} {m : ℕ} {e : ℤ} {a : Accuracy} {x : ℚ}
    (cut : Describes m a x) (le : e ≤ format.targetExponent (totalExponent m e)) :
    Rounds format (signed sign (x * 2 ^ e))
      (UnpackedFloat.roundWithAccuracy format sign m e a) := by
  obtain ⟨k, target⟩ := Int.le.dest le
  have place := target
  rw [target_eq] at place
  obtain ⟨low, high⟩ := cut.floor
  obtain ⟨short, place⟩ := digits_of_target format.hm low high place.symm
  rw [roundWithAccuracy_eq target.symm (by omega), add_sub_cancel_left, Int.toNat_natCast]
  have close := rounded_shiftRight cut k
  generalize (ExtendedMantissa.ofMantissaAndAccuracy m a >>> k).roundedMantissa = r at close ⊢
  have ⟨above, below⟩ := abs_le.mp close
  have positive : 0 ≤ x / 2 ^ k := div_nonneg (low.trans' (Nat.cast_nonneg m)) (by positivity)
  have digits : r ≤ 2 ^ format.mantissaBits := by
    have : (r : ℚ) < (2 ^ format.mantissaBits + 1 : ℕ) := by
      rw [mantissaBits_eq]
      push_cast
      linarith
    exact Nat.lt_succ_iff.mp (by exact_mod_cast this)
  have many : e + k = format.minExponent ∨
      format.minExponent ≤ e + k ∧ 2 ^ format.mantissaBitsWithoutImplicit ≤ r := by
    refine place.imp_right fun ⟨last, big⟩ => ⟨last, ?_⟩
    have : (2 ^ format.mantissaBitsWithoutImplicit : ℕ) < (r + 1 : ℚ) := by push_cast; linarith
    exact Nat.lt_succ_iff.mp (by exact_mod_cast this)
  obtain ⟨canonical, value⟩ := canonical_settled sign digits many
  have same : signed sign (x * 2 ^ e) = signed sign (x / 2 ^ k) * 2 ^ (e + k) := by
    rw [← signed_mul, zpow_add₀ two_ne_zero, zpow_natCast]
    field_simp
  rw [same]
  refine .of_place (r := sign.apply r) canonical ?_ ?_ ?_
  · rw [value, cast_apply, signed_mul, Int.cast_natCast]
  · rwa [cast_apply, abs_signed_sub_signed, Int.cast_natCast]
  · rwa [abs_signed, abs_of_nonneg positive]

end Flipbook.Number

import Flipbook.Proofs.Number.Binary32
import Flipbook.Proofs.Number.Order
import Flipbook.Proofs.Timeline.Cells

/-!
# Ends of binary32 ramps

What the first and the last frame of a ramp hold when every operation rounds. The start is kept. The end
is the start plus the change, and the change is rounded itself: once with an easing, three times
without one. So the end is kept where the change needs no rounding (`value_last_exact`), and is otherwise
missed by little (`value_last_near`).
-/

namespace Flipbook

open Number

/-! ### Easings at their ends -/

namespace Easing

variable {progress : Float32} (easing : Easing) (finite : progress.isFinite = true)
include finite

theorem apply_of_exactValue_zero (zero : exactValue progress = 0) : easing.apply progress = 0 := by
  have same : (progress == 0) = true := (beq_iff_exactValue finite (by decide)).mpr zero
  rw [beq_iff_le_and_le (isNaN_of_isFinite finite) (by decide)] at same
  rw [apply, if_pos same.1]

theorem apply_of_exactValue_one (one : exactValue progress = 1) : easing.apply progress = 1 := by
  have numeric := isNaN_of_isFinite finite
  have same : (progress == 1) = true :=
    (beq_iff_exactValue finite (by decide)).mpr (one.trans exactValue_one.symm)
  obtain ⟨-, high⟩ := (beq_iff_le_and_le numeric (by decide)).mp same
  have low : ¬ progress ≤ 0 := fun low =>
    absurd (le_trans_of_numeric (by decide) numeric (by decide) high low) (by decide)
  rw [apply, if_neg low, if_pos high]

end Easing

namespace Ramp

variable {r : Ramp Float32}

def span (r : Ramp Float32) : ℤ :=
  r.range.last - r.range.first

/-- The difference of the ends. -/
def difference (r : Ramp Float32) : ℚ :=
  exactValue r.stop - exactValue r.start

/-- The change from one frame to the next as a ramp without an easing has it. -/
def step (r : Ramp Float32) : Float32 :=
  (r.stop - r.start) / Float32.ofInt r.span

/-- The change over the whole range as the last frame has it. -/
def change (r : Ramp Float32) : Float32 :=
  match r.easing with
  | some _ => (r.stop - r.start) * 1
  | none => r.step * Float32.ofInt r.span

/-- How far that can be from the difference of the ends. -/
def slack (r : Ramp Float32) : ℚ :=
  match r.easing with
  | some _ => |r.difference| / 2 ^ 24
  | none => |r.difference| / 2 ^ 22 + r.span / 2 ^ 149

/-- A ramp with finite ends over a range whose length is exact. -/
structure Tame (r : Ramp Float32) : Prop where
  start : r.start.isFinite = true
  stop : r.stop.isFinite = true
  way : (r.stop - r.start).isFinite = true
  span : 0 < r.span ∧ r.span ≤ 2 ^ 24

namespace Tame

variable (t : Tame r)
include t

theorem span_exact : (Float32.ofInt r.span).isFinite = true ∧ exactValue (.ofInt r.span) = r.span :=
  exactValue_ofInt t.span.1.le t.span.2

theorem span_ne_zero : exactValue (.ofInt r.span) ≠ 0 := by
  rw [t.span_exact.2]
  exact_mod_cast t.span.1.ne'

theorem span_pos : (0 : ℚ) < r.span := by
  exact_mod_cast t.span.1

theorem step_rounds : RoundsTo (exactValue (r.stop - r.start) / r.span) r.step := by
  have rounds := RoundsTo.div t.way t.span_ne_zero
  rwa [t.span_exact.2] at rounds

theorem step_finite : r.step.isFinite = true := by
  refine t.step_rounds.finite ?_
  have one : (1 : ℚ) ≤ |(r.span : ℚ)| := by
    rw [abs_of_pos t.span_pos]
    exact_mod_cast t.span.1
  rw [abs_div]
  exact (div_le_self (abs_nonneg _) one).trans (exactValue_le_limit t.way)

/-! ### The first frame -/

theorem exists_nothing : ∃ nothing : Float32, nothing.isFinite = true ∧ exactValue nothing = 0 ∧
    r.value r.range.first = r.start + nothing := by
  have offset : GridNumber.ofInt (r.range.first - r.range.first) = (0 : Float32) := by
    rw [sub_self]
    rfl
  have nothing {x : Float32} (finite : x.isFinite = true) :
      (x * 0).isFinite = true ∧ exactValue (x * 0) = 0 := by
    have rounds := RoundsTo.mul finite (by decide : (0 : Float32).isFinite = true)
    rw [exactValue_zero, mul_zero] at rounds
    exact rounds.zero
  unfold value
  simp only [offset]
  cases r.easing with
  | some easing =>
    have rounds := RoundsTo.div (x := 0) (by decide) t.span_ne_zero
    rw [exactValue_zero, zero_div] at rounds
    obtain ⟨finite, zero⟩ := rounds.zero
    have start : easing.apply (0 / Float32.ofInt r.span) = 0 :=
      easing.apply_of_exactValue_zero finite zero
    obtain ⟨finite, zero⟩ := nothing t.way
    exact ⟨_, finite, zero, congrArg (r.start + (r.stop - r.start) * ·) start⟩
  | none =>
    obtain ⟨finite, zero⟩ := nothing t.step_finite
    exact ⟨_, finite, zero, rfl⟩

theorem exactValue_first : (r.value r.range.first).isFinite = true ∧
    exactValue (r.value r.range.first) = exactValue r.start := by
  obtain ⟨nothing, finite, zero, value⟩ := t.exists_nothing
  have rounds := RoundsTo.add t.start finite
  rw [zero, add_zero, ← value] at rounds
  exact rounds.same t.start

theorem value_first : (r.value r.range.first == r.start) = true :=
  (beq_iff_exactValue t.exactValue_first.1 t.start).mpr t.exactValue_first.2

/-- Only the sign of a zero may change. -/
theorem value_first_eq (signed : r.start ≠ -0) : r.value r.range.first = r.start := by
  obtain ⟨finite, same⟩ := t.exactValue_first
  rcases eq_of_exactValue finite t.start same with equal | zero
  · exact equal
  obtain zero' | negative := eq_zero_of_exactValue t.start (same.symm.trans zero)
  · rcases eq_zero_of_exactValue finite zero with kept | lost
    · exact kept.trans zero'.symm
    · obtain ⟨nothing, finite, isZero, value⟩ := t.exists_nothing
      rw [lost, zero'] at value
      rcases eq_zero_of_exactValue finite isZero with rfl | rfl <;> exact absurd value (by decide)
  · exact (signed negative).elim

/-! ### The last frame -/

theorem value_last : r.value r.range.last = r.start + r.change := by
  unfold value change
  cases r.easing with
  | some easing =>
    obtain ⟨finite, exact⟩ := t.span_exact
    have rounds := RoundsTo.div finite t.span_ne_zero
    rw [div_self t.span_ne_zero, ← Nat.cast_one] at rounds
    obtain ⟨finite, one⟩ := rounds.natCast (by decide)
    have stop : easing.apply (Float32.ofInt r.span / Float32.ofInt r.span) = 1 :=
      easing.apply_of_exactValue_one finite (one.trans Nat.cast_one)
    exact congrArg (r.start + (r.stop - r.start) * ·) stop
  | none => rfl

/-- The sum misses the end by no more than twice what the change misses. -/
theorem value_last_near (finite : (r.value r.range.last).isFinite = true) :
    |exactValue (r.value r.range.last) - exactValue r.stop| ≤
      2 * |exactValue r.change - r.difference| := by
  rw [t.value_last] at finite ⊢
  have sum := (RoundsTo.add t.start (isFinite_of_add finite)).rounds finite
  have nearest : |exactValue (r.start + r.change) - (exactValue r.start + exactValue r.change)| ≤
      |exactValue r.stop - (exactValue r.start + exactValue r.change)| :=
    sum.nearest _ (onGrid_exactValue t.stop)
  have missed : |exactValue r.stop - (exactValue r.start + exactValue r.change)| =
      |exactValue r.change - r.difference| := by
    rw [difference, abs_sub_comm]
    congr 1
    ring
  have := abs_sub_le (exactValue (r.start + r.change)) (exactValue r.start + exactValue r.change)
    (exactValue r.stop)
  rw [abs_sub_comm (exactValue r.start + exactValue r.change)] at this
  linarith

theorem difference_near :
    |exactValue (r.stop - r.start) - r.difference| ≤ |r.difference| / 2 ^ 24 := by
  obtain ⟨m, first⟩ := (onGrid_exactValue t.start).exists_int
  obtain ⟨n, last⟩ := (onGrid_exactValue t.stop).exists_int
  have whole : r.difference = ((n - m : ℤ) : ℚ) * 2 ^ (-149 : ℤ) := by
    rw [difference, first, last]
    push_cast
    ring
  exact ((RoundsTo.sub t.stop t.start).rounds t.way).error_of_int whole

/-- As many steps as there are frames lead back to the difference, up to one rounding. -/
theorem steps_near : |exactValue r.step * r.span - exactValue (r.stop - r.start)| ≤
    |exactValue (r.stop - r.start)| / 2 ^ 24 + r.span / 2 ^ 150 := by
  have pos := t.span_pos
  have rounded := t.step_rounds.error t.step_finite
  generalize exactValue (r.stop - r.start) = d at rounded ⊢
  have apart : exactValue r.step * r.span - d = (exactValue r.step - d / r.span) * r.span := by
    rw [sub_mul, div_mul_cancel₀ _ pos.ne']
  have both : |exactValue r.step - d / r.span| ≤ |d| / r.span / 2 ^ 24 + 1 / 2 ^ 150 := by
    rwa [abs_div, abs_of_pos pos] at rounded
  rw [apart, abs_mul, abs_of_pos pos]
  calc |exactValue r.step - d / r.span| * r.span
      ≤ (|d| / r.span / 2 ^ 24 + 1 / 2 ^ 150) * r.span := by gcongr
    _ = |d| / 2 ^ 24 + r.span / 2 ^ 150 := by field_simp

theorem change_eased {easing : Easing} (eased : r.easing = some easing) :
    r.change.isFinite = true ∧ exactValue r.change = exactValue (r.stop - r.start) := by
  have rounds := RoundsTo.mul t.way (by decide : (1 : Float32).isFinite = true)
  rw [exactValue_one, mul_one] at rounds
  unfold change
  rw [eased]
  exact rounds.same t.way

theorem change_plain (plain : r.easing = none) :
    RoundsTo (exactValue r.step * r.span) r.change := by
  obtain ⟨finite, exact⟩ := t.span_exact
  have rounds := RoundsTo.mul t.step_finite finite
  rw [exact] at rounds
  unfold change
  rwa [plain]

theorem change_near (finite : r.change.isFinite = true) :
    |exactValue r.change - r.difference| ≤ r.slack := by
  unfold slack
  cases easing : r.easing with
  | some _ =>
    rw [(t.change_eased easing).2]
    exact t.difference_near
  | none =>
    have product : |exactValue r.change - exactValue r.step * r.span| ≤
        |exactValue r.step * r.span| / 2 ^ 24 := by
      obtain ⟨n, whole⟩ := (onGrid_exactValue t.step_finite).exists_int
      have digits : exactValue r.step * r.span = ((n * r.span : ℤ) : ℚ) * 2 ^ (-149 : ℤ) := by
        rw [whole]
        push_cast
        ring
      exact ((t.change_plain easing).rounds finite).error_of_int digits
    -- The three roundings, each measured against what the one before it gave.
    have first := t.difference_near
    have second := t.steps_near
    have size := abs_sub_abs_le_abs_sub (exactValue (r.stop - r.start)) r.difference
    have sizes := abs_sub_abs_le_abs_sub (exactValue r.step * r.span) (exactValue (r.stop - r.start))
    have chain := abs_sub_le (exactValue r.change) (exactValue r.step * r.span) r.difference
    have rest := abs_sub_le (exactValue r.step * r.span) (exactValue (r.stop - r.start)) r.difference
    have := abs_nonneg r.difference
    have := t.span_pos
    show _ ≤ |r.difference| / 2 ^ 22 + r.span / 2 ^ 149
    linarith

/-- Far from the greatest number nothing overflows. -/
theorem change_finite (small : |r.difference| ≤ 2 ^ 127) : r.change.isFinite = true := by
  cases easing : r.easing with
  | some _ => exact (t.change_eased easing).1
  | none =>
    refine (t.change_plain easing).finite ?_
    have first := t.difference_near
    have second := t.steps_near
    have size := abs_sub_abs_le_abs_sub (exactValue (r.stop - r.start)) r.difference
    have sizes := abs_sub_abs_le_abs_sub (exactValue r.step * r.span) (exactValue (r.stop - r.start))
    have short : (r.span : ℚ) ≤ 2 ^ 24 := by exact_mod_cast t.span.2
    rw [limit]
    linarith

theorem change_exact (grid : OnGrid r.difference)
    (even : r.easing = none → OnGrid (r.difference / r.span)) :
    r.change.isFinite = true ∧ exactValue r.change = r.difference := by
  have first : exactValue (r.stop - r.start) = r.difference :=
    ((RoundsTo.sub t.stop t.start).rounds t.way).eq_of_onGrid grid
  cases easing : r.easing with
  | some _ => exact (t.change_eased easing).imp_right (·.trans first)
  | none =>
    have step : exactValue r.step = exactValue (r.stop - r.start) / r.span :=
      (t.step_rounds.rounds t.step_finite).eq_of_onGrid (first ▸ even easing)
    have rounds := t.change_plain easing
    rw [step, div_mul_cancel₀ _ t.span_pos.ne'] at rounds
    exact (rounds.same t.way).imp_right (·.trans first)

/-- A change that is too great ends at infinity, never at NaN. -/
theorem value_last_numeric : (r.value r.range.last).isNaN = false := by
  rw [t.value_last]
  refine isNaN_add t.start ?_
  cases easing : r.easing with
  | some _ => exact isNaN_of_isFinite (t.change_eased easing).1
  | none => exact (t.change_plain easing).numeric

theorem value_last_exact (grid : OnGrid r.difference)
    (even : r.easing = none → OnGrid (r.difference / r.span)) :
    (r.value r.range.last == r.stop) = true := by
  obtain ⟨finite, exact⟩ := t.change_exact grid even
  have sum := RoundsTo.add t.start finite
  rw [exact, difference, add_sub_cancel, ← t.value_last] at sum
  obtain ⟨finite, same⟩ := sum.same t.stop
  exact (beq_iff_exactValue finite t.stop).mpr same

theorem slack_le : r.slack ≤ |r.difference| / 2 ^ 22 + r.span / 2 ^ 149 := by
  have := abs_nonneg r.difference
  have := t.span_pos
  unfold slack
  cases r.easing with
  | some _ =>
    show |r.difference| / 2 ^ 24 ≤ _
    linarith
  | none => exact le_rfl

theorem value_last_finite (start : |exactValue r.start| ≤ 2 ^ 126)
    (stop : |exactValue r.stop| ≤ 2 ^ 126) : (r.value r.range.last).isFinite = true := by
  have size : |r.difference| ≤ 2 ^ 127 := by
    have := abs_sub (exactValue r.stop) (exactValue r.start)
    rw [difference]
    linarith
  have finite := t.change_finite size
  rw [t.value_last]
  refine (RoundsTo.add t.start finite).finite ?_
  have near := (t.change_near finite).trans t.slack_le
  have short : (r.span : ℚ) ≤ 2 ^ 24 := by exact_mod_cast t.span.2
  have sum : exactValue r.start + exactValue r.change =
      exactValue r.stop + (exactValue r.change - r.difference) := by
    rw [difference]
    ring
  have := abs_add_le (exactValue r.stop) (exactValue r.change - r.difference)
  rw [sum, limit]
  linarith

end Tame

end Ramp

namespace Timeline

/-- The first frame of a ramp holds its start. The last frame holds its end if the difference of
the ends, and without an easing the change from frame to frame too, are numbers of the grid. Otherwise
it misses the end by no more than the roundings of the change, and unless the ends are very great it
does not overflow. -/
theorem ends_stored (knob : String) (r : Ramp Float32) (frames : List KnobValues)
    (fits : r.range.fits frames.length = true) (short : r.range.last - r.range.first ≤ 2 ^ 24)
    (start : r.start.isFinite = true) (stop : r.stop.isFinite = true)
    (way : (r.stop - r.start).isFinite = true) :
    ∃ first last : Float32,
      cell (writeRamp knob r frames) r.range.first.toNat knob = some first ∧
      cell (writeRamp knob r frames) r.range.last.toNat knob = some last ∧
      (first == r.start) = true ∧ (r.start ≠ -0 → first = r.start) ∧
      (OnGrid r.difference → (r.easing = none → OnGrid (r.difference / r.span)) →
        (last == r.stop) = true) ∧
      (last.isFinite = true → |exactValue last - exactValue r.stop| ≤ 2 * r.slack) ∧
      (|exactValue r.start| ≤ 2 ^ 126 → |exactValue r.stop| ≤ 2 ^ 126 → last.isFinite = true) ∧
      last.isNaN = false := by
  obtain ⟨low, order, high⟩ := fits_iff.mp fits
  have tame : r.Tame := ⟨start, stop, way, sub_pos.mpr order, short⟩
  have stored (frame : ℤ) (within : Within r.range frame) :
      cell (writeRamp knob r frames) frame.toNat knob = some (r.value frame) := by
    have number : (frame.toNat : ℤ) = frame := Int.toNat_of_nonneg (low.trans within.1)
    have := within.2
    rw [cell_writeRamp (by omega), number, if_pos ⟨rfl, within⟩]
  refine ⟨r.value r.range.first, r.value r.range.last, stored _ ⟨le_rfl, order.le⟩,
    stored _ ⟨order.le, le_rfl⟩, tame.value_first, tame.value_first_eq, tame.value_last_exact,
    fun finite => ?_, tame.value_last_finite, tame.value_last_numeric⟩
  have change := tame.change_near (isFinite_of_add (tame.value_last ▸ finite))
  have last := tame.value_last_near finite
  linarith

/-- A ramp from 1 to 3 needs no rounding at its ends. -/
theorem ends_of_short_ramp :
    let r : Ramp Float32 := ⟨⟨2, 6⟩, 1, 3, some .inCubic⟩
    ∃ first last, cell (writeRamp "k" r (List.replicate 8 .empty)) 2 "k" = some first ∧
      cell (writeRamp "k" r (List.replicate 8 .empty)) 6 "k" = some last ∧
      first = 1 ∧ (last == 3) = true := by
  intro r
  obtain ⟨first, last, atFirst, atLast, -, kept, exact, -⟩ :=
    ends_stored "k" r (List.replicate 8 .empty) rfl (by decide) (by decide) (by decide)
      (by decide +kernel)
  have two : r.difference = (2 : ℕ) := by
    have three : exactValue 3 = (3 : ℕ) := (exactValue_ofNat (by decide)).2
    rw [Ramp.difference, three, exactValue_one]
    norm_num
  exact ⟨first, last, atFirst, atLast, kept (by decide),
    exact (two ▸ onGrid_natCast (by decide)) (fun plain => by cases plain)⟩

/-- Thirteen in eleven steps: a step has no end in binary, and the last frame stays below 13. -/
theorem end_missed :
    let r : Ramp Float32 := ⟨⟨0, 11⟩, 0, 13, none⟩
    r.range.fits 12 = true ∧ r.range.last - r.range.first ≤ 2 ^ 24 ∧ r.start.isFinite = true ∧
      r.stop.isFinite = true ∧ (r.stop - r.start).isFinite = true ∧
      ∃ last, cell (writeRamp "k" r (List.replicate 12 .empty)) 11 "k" = some last ∧
        last < r.stop := by
  refine ⟨rfl, by decide, by decide, by decide, by decide +kernel, _, cell_writeRamp (by decide), ?_⟩
  decide +kernel

end Timeline

end Flipbook

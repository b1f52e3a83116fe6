import Flipbook.Animation.Ramp
import Flipbook.Proofs.Animation.Easing
import Flipbook.Proofs.Number.Exact

/-!
# Exact ramps

Ramps read without rounding. A ramp goes as far from its start to its end as time or its easing says,
which is from 0 at the first frame to 1 at the last, so its values stay between its ends.
-/

namespace Flipbook.Ramp

variable {K : Type} [Field K] [LinearOrder K] [IsStrictOrderedRing K] [GridNumber K]
variable {r : Ramp K} {frame later : Int} {n : Nat}

/-- The part of the range that has passed at a frame. -/
def passed (r : Ramp K) (frame : Int) : K :=
  GridNumber.ofInt (frame - r.range.first) / GridNumber.ofInt (r.range.last - r.range.first)

/-- The part of the way from start to end that a ramp has made at a frame. -/
def progress (r : Ramp K) (frame : Int) : K :=
  Easing.progress r.easing (r.passed frame)

theorem value_eq (r : Ramp K) (frame : Int) :
    r.value frame = r.start + (r.stop - r.start) * r.progress frame := by
  unfold value progress
  cases r.easing with
  | some easing => rfl
  | none =>
    rw [Easing.progress, passed]
    ring

omit [GridNumber K] in
theorem span_pos {range : FrameRange} (fits : range.fits n = true) :
    (0 : K) < (range.last - range.first : Int) := by
  simp only [FrameRange.fits, Bool.and_eq_true, decide_eq_true_eq] at fits
  exact_mod_cast sub_pos.mpr fits.2

section

variable (exact : ∀ i : Int, (GridNumber.ofInt i : K) = i) (fits : r.range.fits n = true)
include exact

omit [LinearOrder K] [IsStrictOrderedRing K] in
theorem passed_eq (r : Ramp K) (frame : Int) :
    r.passed frame = ((frame - r.range.first : Int) : K) / (r.range.last - r.range.first : Int) := by
  rw [passed, exact, exact]

omit [LinearOrder K] [IsStrictOrderedRing K] in
theorem passed_first : r.passed r.range.first = 0 := by
  rw [passed_eq exact, sub_self, Int.cast_zero, zero_div]

omit [IsStrictOrderedRing K] in
theorem progress_first : r.progress r.range.first = 0 := by
  rw [progress, passed_first exact, Easing.progress_zero]

include fits

theorem passed_last : r.passed r.range.last = 1 := by
  rw [passed_eq exact, div_self (span_pos fits).ne']

theorem passed_mono (le : frame ≤ later) : r.passed frame ≤ r.passed later := by
  rw [passed_eq exact, passed_eq exact]
  refine div_le_div_of_nonneg_right ?_ (span_pos fits).le
  exact_mod_cast sub_le_sub_right le _

theorem progress_mem (inside : r.range.contains frame = true) : InUnit (r.progress frame) := by
  simp only [FrameRange.contains, Bool.and_eq_true, decide_eq_true_eq] at inside
  refine Easing.progress_mem ⟨?_, ?_⟩
  · rw [← passed_first exact]
    exact passed_mono exact fits inside.1
  · rw [← passed_last exact fits]
    exact passed_mono exact fits inside.2

theorem progress_last : r.progress r.range.last = 1 := by
  rw [progress, passed_last exact fits, Easing.progress_one]

end

omit [GridNumber K] in
/-- A part of the way from one number to another is between them. -/
theorem part_between {a b t : K} (inside : InUnit t) :
    min a b ≤ a + (b - a) * t ∧ a + (b - a) * t ≤ max a b := by
  obtain ⟨low, high⟩ := inside
  rcases le_total a b with up | down
  · rw [min_eq_left up, max_eq_right up]
    have part := mul_nonneg (sub_nonneg.mpr up) low
    have whole := mul_le_of_le_one_right (sub_nonneg.mpr up) high
    constructor <;> linarith
  · rw [min_eq_right down, max_eq_left down]
    have part := mul_nonneg (sub_nonneg.mpr down) low
    have whole := mul_le_of_le_one_right (sub_nonneg.mpr down) high
    constructor <;> linarith

/-- A ramp stays between its ends and takes both of them. Without an easing it goes one way all the
time. An easing stays between 0 and 1, and the search behind it does so at every step and
never divides by 0. -/
theorem value_between (exact : ∀ i : Int, (GridNumber.ofInt i : K) = i) (r : Ramp K) (n : Nat)
    (fits : r.range.fits n = true) :
    (∀ frame, r.range.contains frame = true →
      min r.start r.stop ≤ r.value frame ∧ r.value frame ≤ max r.start r.stop) ∧
    r.value r.range.first = r.start ∧ r.value r.range.last = r.stop ∧
    (r.easing = none → ∀ frame later, frame ≤ later →
      (r.start ≤ r.stop → r.value frame ≤ r.value later) ∧
      (r.stop ≤ r.start → r.value later ≤ r.value frame)) ∧
    (GridNumber.ofInt (r.range.last - r.range.first) : K) ≠ 0 ∧
    ∀ (easing : Easing) (progress : K),
      InUnit (easing.apply progress) ∧
      (progress ≤ 0 → easing.apply progress = 0) ∧ (1 ≤ progress → easing.apply progress = 1) ∧
      ∃ u path, (easing.curve : BezierCurve K).Path progress 5 (clamp 0 1 progress) u path ∧
        easing.curve.eval progress = BezierCurve.value easing.curve.height u := by
  refine ⟨fun frame inside => ?_, ?_, ?_, fun plain frame later le => ?_, ?_,
    fun easing progress =>
      ⟨easing.apply_mem progress, easing.apply_of_nonpos, easing.apply_of_one_le, ?_⟩⟩
  · rw [value_eq]
    exact part_between (progress_mem exact fits inside)
  · rw [value_eq, progress_first exact, mul_zero, add_zero]
  · rw [value_eq, progress_last exact fits, mul_one, add_sub_cancel]
  · have steady (frame : Int) : r.progress frame = r.passed frame := by
      rw [progress, plain]
      rfl
    have mono := passed_mono exact fits le
    rw [value_eq, value_eq, steady, steady]
    constructor
    · intro up
      have := mul_le_mul_of_nonneg_left mono (sub_nonneg.mpr up)
      linarith
    · intro down
      have := mul_le_mul_of_nonpos_left mono (sub_nonpos.mpr down)
      linarith
  · rw [exact]
    exact (span_pos fits).ne'
  · obtain ⟨path, found⟩ := BezierCurve.exists_path easing.curve progress 5 (inUnit_clamp progress)
    exact ⟨_, path, found, rfl⟩

/-- A ramp down over five frames that starts slowly. -/
theorem eased_ramp_between :
    let r : Ramp ℚ := ⟨⟨2, 6⟩, 10, -10, some .inCubic⟩
    r.range.fits 8 = true ∧ r.value 2 = 10 ∧ r.value 6 = -10 ∧
      -10 ≤ r.value 3 ∧ r.value 3 ≤ 10 := by
  intro r
  obtain ⟨between, first, last, -⟩ := value_between (fun _ => rfl) r 8 rfl
  obtain ⟨low, high⟩ := between 3 rfl
  exact ⟨rfl, first, last, (by decide : min (10 : ℚ) (-10) = -10) ▸ low,
    (by decide : max (10 : ℚ) (-10) = 10) ▸ high⟩

end Flipbook.Ramp

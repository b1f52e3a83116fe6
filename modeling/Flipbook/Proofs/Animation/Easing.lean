import Flipbook.Animation.Easing
import Mathlib.Algebra.Order.Field.Basic
import Mathlib.Tactic.Linarith
import Mathlib.Tactic.NormNum
import Mathlib.Tactic.Positivity
import Mathlib.Tactic.Ring

/-!
# Exact easings

Easings read without rounding. The search for the parameter never leaves the numbers from 0 to 1 and
never divides by 0 (`exists_path`). Whatever parameter it ends at, the height of the curve there is a
mean of the heights of its control points (`height_mem`), so an easing never leaves the numbers from
0 to 1 either.
-/

namespace Flipbook

variable {K : Type} [Field K] [LinearOrder K] [IsStrictOrderedRing K]

/-- The numbers from 0 to 1. -/
def InUnit (t : K) : Prop :=
  0 ≤ t ∧ t ≤ 1

theorem inUnit_zero : InUnit (0 : K) := ⟨le_rfl, zero_le_one⟩

theorem inUnit_one : InUnit (1 : K) := ⟨zero_le_one, le_rfl⟩

theorem inUnit_clamp (t : K) : InUnit (clamp 0 1 t) := by
  unfold clamp
  split
  · exact inUnit_zero
  · next low =>
    split
    · exact inUnit_one
    · next high => exact ⟨not_lt.mp low, not_lt.mp high⟩

namespace BezierCurve

variable {c : BezierCurve K} {time t : K}

/-! ### The search -/

/-- Where the curve counts as flat. -/
def IsFlat (c : BezierCurve K) (t : K) : Prop :=
  slope c.time t < flat ∧ -flat < slope c.time t

/-- One step of the search leads from `t` to `u`, with a divisor that is not 0. -/
structure Moves (c : BezierCurve K) (time t u : K) : Prop where
  steep : ¬ c.IsFlat t
  divisor : slope c.time t ≠ 0
  lands : u = clamp 0 1 (t - (value c.time t - time) / slope c.time t)

/-- The parameters that a search for `time` of at most `n` steps meets, from `t` to `u`. It goes on
until the curve is flat or there are no steps left. -/
structure Path (c : BezierCurve K) (time : K) (n : Nat) (t u : K) (path : List K) : Prop where
  starts : path.head? = some t
  ends : path.getLast? = some u
  moves : path.IsChain (c.Moves time)
  stops : path.length = n + 1 ∨ path.length ≤ n ∧ c.IsFlat u
  inUnit : ∀ t ∈ path, InUnit t

theorem flat_pos : (0 : K) < flat := by
  norm_num [flat]

theorem slope_ne_zero (steep : ¬ c.IsFlat t) : slope c.time t ≠ 0 := by
  intro level
  refine steep ?_
  rw [IsFlat, level]
  exact ⟨flat_pos, neg_neg_of_pos flat_pos⟩

theorem exists_path (c : BezierCurve K) (time : K) (n : Nat) (inside : InUnit t) :
    ∃ path, c.Path time n t (c.search time n t) path := by
  induction n generalizing t with
  | zero => exact ⟨[t], rfl, rfl, .singleton t, .inl rfl, by simpa using inside⟩
  | succ n ih =>
    rw [search]
    split
    · next level => exact ⟨[t], rfl, rfl, .singleton t, .inr ⟨by simp, level⟩, by simpa using inside⟩
    · next steep =>
      obtain ⟨path, starts, ends, moves, stops, within⟩ := ih (inUnit_clamp _)
      cases path with
      | nil => cases starts
      | cons u rest =>
        have step : c.Moves time t u :=
          ⟨steep, slope_ne_zero steep, (Option.some.inj starts)⟩
        refine ⟨t :: u :: rest, rfl, by simpa using ends, .cons_cons step moves, ?_, ?_⟩
        · simpa using stops
        · exact List.forall_mem_cons.mpr ⟨inside, within⟩

theorem inUnit_search (c : BezierCurve K) (time : K) (n : Nat) (inside : InUnit t) :
    InUnit (c.search time n t) := by
  obtain ⟨path, -, ends, -, -, within⟩ := exists_path c time n inside
  exact within _ (List.mem_of_getLast? ends)

/-! ### The height -/

omit [LinearOrder K] [IsStrictOrderedRing K] in
/-- A curve weights its control points, and the weights sum up to 1. -/
theorem height_eq (x1 y1 x2 y2 t : K) :
    value (of x1 y1 x2 y2).height t =
      3 * (1 - t) ^ 2 * t * y1 + 3 * (1 - t) * t ^ 2 * y2 + t ^ 3 := by
  simp only [value, of, Matrix.apply, Matrix.rowDot, basis]
  ring

theorem height_mem {x1 y1 x2 y2 : K} (h1 : InUnit y1) (h2 : InUnit y2) (inside : InUnit t) :
    InUnit (value (of x1 y1 x2 y2).height t) := by
  obtain ⟨low1, high1⟩ := h1
  obtain ⟨low2, high2⟩ := h2
  obtain ⟨low, high⟩ := inside
  have rest : 0 ≤ 1 - t := sub_nonneg.mpr high
  rw [height_eq]
  constructor
  · positivity
  · have weight1 : 3 * (1 - t) ^ 2 * t * y1 ≤ 3 * (1 - t) ^ 2 * t :=
      mul_le_of_le_one_right (by positivity) high1
    have weight2 : 3 * (1 - t) * t ^ 2 * y2 ≤ 3 * (1 - t) * t ^ 2 :=
      mul_le_of_le_one_right (by positivity) high2
    have weight0 : 0 ≤ (1 - t) ^ 3 := by positivity
    have whole : (1 - t) ^ 3 + 3 * (1 - t) ^ 2 * t + 3 * (1 - t) * t ^ 2 + t ^ 3 = 1 := by ring
    linarith

theorem eval_mem {x1 y1 x2 y2 : K} (h1 : InUnit y1) (h2 : InUnit y2) (time : K) :
    InUnit ((of x1 y1 x2 y2).eval time) :=
  height_mem h1 h2 (inUnit_search _ _ _ (inUnit_clamp _))

end BezierCurve

namespace Easing

theorem exists_control (e : Easing) :
    ∃ x1 y1 x2 y2 : K, InUnit y1 ∧ InUnit y2 ∧ e.curve = .of x1 y1 x2 y2 := by
  cases e with
  | inCubic => exact ⟨_, _, _, _, inUnit_zero, inUnit_one, rfl⟩
  | outCubic => exact ⟨_, _, _, _, inUnit_one, inUnit_one, rfl⟩
  | inExpo => exact ⟨_, _, _, _, inUnit_zero, inUnit_zero, rfl⟩
  | outExpo => exact ⟨_, _, _, _, inUnit_one, inUnit_one, rfl⟩

omit [IsStrictOrderedRing K] in
theorem apply_of_nonpos (e : Easing) {progress : K} (nonpos : progress ≤ 0) :
    e.apply progress = 0 :=
  if_pos nonpos

theorem apply_of_one_le (e : Easing) {progress : K} (all : 1 ≤ progress) :
    e.apply progress = 1 := by
  rw [apply, if_neg (not_le.mpr (zero_lt_one.trans_le all)), if_pos all]

theorem apply_mem (e : Easing) (progress : K) : InUnit (e.apply progress) := by
  unfold apply
  split
  · exact inUnit_zero
  · split
    · exact inUnit_one
    · obtain ⟨x1, y1, x2, y2, h1, h2, curve⟩ := e.exists_control (K := K)
      rw [curve]
      exact BezierCurve.eval_mem h1 h2 progress

/-- The progress of a motion with or without an easing. -/
def progress (easing : Option Easing) (passed : K) : K :=
  match easing with
  | some easing => easing.apply passed
  | none => passed

variable {easing : Option Easing}

omit [IsStrictOrderedRing K] in
theorem progress_zero : progress easing (0 : K) = 0 := by
  cases easing with
  | some easing => exact easing.apply_of_nonpos le_rfl
  | none => rfl

theorem progress_one : progress easing (1 : K) = 1 := by
  cases easing with
  | some easing => exact easing.apply_of_one_le le_rfl
  | none => rfl

theorem progress_mem {passed : K} (inside : InUnit passed) : InUnit (progress easing passed) := by
  cases easing with
  | some easing => exact easing.apply_mem passed
  | none => exact inside

end Easing

end Flipbook

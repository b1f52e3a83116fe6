import Flipbook.Proofs.Number.Infinite
import Flipbook.Proofs.Number.Truncation
import Flipbook.Proofs.Raster.Stepping

/-!
# The depths of a stepped line

The gain of a step may be infinite, when the depths of the two ends are far apart. From a finite depth
it leads to infinite ones of its own sign only, so no pixel of a line between finite depths has NaN for
its depth (`isNaN_depth`).
-/

namespace Flipbook.Line

open Number

variable {a b : PixelPoint Float32} {step z : Float32}

/-- From a finite depth no number of equal steps leads to NaN. -/
theorem isNaN_iterate (start : z.isFinite = true) (numeric : step.isNaN = false) (k : Nat) :
    ((· + step)^[k] z).isNaN = false := by
  rcases isFinite_or_isInfinite numeric with finite | ⟨s, infinite⟩
  · induction k with
    | zero => exact isNaN_of_isFinite start
    | succ k ih =>
      rw [Function.iterate_succ_apply']
      exact isNaN_add_finite ih finite
  · have reached : ((· + step)^[k] z).isFinite = true ∨ IsInfinite s ((· + step)^[k] z) := by
      induction k with
      | zero => exact .inl start
      | succ k ih =>
        rw [Function.iterate_succ_apply']
        rcases ih with near | far
        · exact .inr (.finite_add near infinite)
        · exact .inr (far.add infinite)
    rcases reached with near | far
    · exact isNaN_of_isFinite near
    · exact far.numeric

theorem isNaN_stepDepth (first : a.depth.isFinite = true) (last : b.depth.isFinite = true) :
    (Course.of wrap a b).stepDepth.isNaN = false := by
  obtain ⟨n, steps⟩ : ∃ n, max (max (Course.of wrap a b).dx (wrap (-(Course.of wrap a b).dy))) 1 = n :=
    ⟨_, rfl⟩
  have atLeast : 1 ≤ n := by
    rw [← steps]
    exact le_max_right ..
  have few : n ≤ wordMax := by
    rw [← steps]
    have width : IsWord (Course.of wrap a b).dx := by
      rw [dx_eq]
      exact isWord_wrap _
    have height := isWord_wrap (-(Course.of wrap a b).dy)
    exact max_le (max_le width.2 height.2) (by decide)
  have finite : (GridNumber.ofInt n : Float32).isFinite = true :=
    isFinite_ofInt (by omega) (by unfold wordMax at few; omega)
  have positive : 1 ≤ exactValue (GridNumber.ofInt n) :=
    (RoundsTo.ofInt (by omega)).ge finite onGrid_one (by exact_mod_cast atLeast)
  rw [stepDepth_eq, steps]
  exact isNaN_div_finite (RoundsTo.sub last first).numeric finite (by linarith)

theorem isNaN_depth {color : Color} {f : Fragment Float32} (first : a.depth.isFinite = true)
    (last : b.depth.isFinite = true) (member : f ∈ fragments wrap a b color) :
    f.depth.isNaN = false := by
  obtain ⟨s, walked, rfl⟩ := List.mem_map.mp member
  obtain ⟨k, rfl⟩ := exists_iterate_of_mem_walk walked
  rw [State.fragment, depth_iterate]
  exact isNaN_iterate first (isNaN_stepDepth first last) k

end Flipbook.Line

import Flipbook.Geometry.Vector
import Mathlib.Tactic.Ring

/-!
# Exact vectors

The laws of vectors whose coordinates are added and multiplied without rounding.
-/

namespace Flipbook.Vec3

variable {R : Type} [CommRing R]

/-- The vector of length 0. -/
def zero : Vec3 R := ⟨0, 0, 0⟩

theorem add_right_comm (u v w : Vec3 R) : (u.add v).add w = (u.add w).add v := by
  simp only [add, mk.injEq]
  refine ⟨?_, ?_, ?_⟩ <;> ring

@[simp] theorem add_zero (v : Vec3 R) : v.add zero = v := by
  simp [add, zero]

@[simp] theorem scale_zero (v : Vec3 R) : v.scale 0 = zero := by
  simp [scale, zero]

theorem add_eq_self_iff {u v : Vec3 R} : u.add v = u ↔ v = zero := by
  obtain ⟨x, y, z⟩ := v
  obtain ⟨x', y', z'⟩ := u
  simp [add, zero]

theorem scale_eq_zero_iff [NoZeroDivisors R] {v : Vec3 R} {factor : R} :
    v.scale factor = zero ↔ v = zero ∨ factor = 0 := by
  obtain ⟨x, y, z⟩ := v
  simp only [scale, zero, mk.injEq, mul_eq_zero]
  tauto

theorem dot_scale (u v : Vec3 R) (factor : R) : (u.scale factor).dot v = u.dot v * factor := by
  simp only [dot, scale]
  ring

end Flipbook.Vec3

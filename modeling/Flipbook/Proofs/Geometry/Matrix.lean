import Flipbook.Proofs.Geometry.Vector
import Flipbook.Geometry.Matrix

/-!
# Exact transforms

The laws of transforms whose entries are added and multiplied without rounding. Composed transforms
act one after the other, the right one first (`apply_compose`), and a transform with the last row
(0, 0, 0, 1) leaves the fourth coordinate of a point alone (`IsAffine.apply_w`). The determinant says
by how much volumes grow (`triple_turned`).
-/

namespace Flipbook.Matrix

variable {R : Type} [CommRing R] {a b m : Matrix R}

theorem rowDot_eq (a b c d : R) (p : Point R) :
    rowDot a b c d p = a * p.x + b * p.y + c * p.z + d * p.w := by
  rw [rowDot, neg_zero, zero_add]

theorem apply_identity (p : Point R) : (identity : Matrix R).apply p = p := by
  simp [apply, identity, rowDot_eq]

theorem apply_compose (a b : Matrix R) (p : Point R) :
    (a.compose b).apply p = a.apply (b.apply p) := by
  simp only [apply, compose, rowDot_eq, Point.mk.injEq]
  refine ⟨?_, ?_, ?_, ?_⟩ <;> ring

/-! ### Affine transforms -/

/-- The row that gives the fourth coordinate. -/
def lastRow (m : Matrix R) : Point R :=
  ⟨m.c0.w, m.c1.w, m.c2.w, m.c3.w⟩

def IsAffine (m : Matrix R) : Prop :=
  m.lastRow = ⟨0, 0, 0, 1⟩

theorem apply_w_eq (m : Matrix R) (p : Point R) :
    (m.apply p).w = rowDot m.lastRow.x m.lastRow.y m.lastRow.z m.lastRow.w p :=
  rfl

theorem IsAffine.apply_w (affine : m.IsAffine) (p : Point R) : (m.apply p).w = p.w := by
  rw [apply_w_eq, affine, rowDot_eq]
  ring

theorem isAffine_identity : (identity : Matrix R).IsAffine := rfl

theorem IsAffine.compose (ha : a.IsAffine) (hb : b.IsAffine) : (a.compose b).IsAffine := by
  have columns : (a.compose b).lastRow = b.lastRow := by
    simp only [lastRow, Matrix.compose, ha.apply_w]
  exact columns.trans hb

/-! ### Directions -/

/-- What a transform does to a vector, its linear part. -/
def turned (m : Matrix R) (v : Vec3 R) : Vec3 R where
  x := m.c0.x * v.x + m.c1.x * v.y + m.c2.x * v.z
  y := m.c0.y * v.x + m.c1.y * v.y + m.c2.y * v.z
  z := m.c0.z * v.x + m.c1.z * v.y + m.c2.z * v.z

/-- The determinant of the linear part. -/
def det (m : Matrix R) : R :=
  m.c0.x * (m.c1.y * m.c2.z - m.c2.y * m.c1.z) -
    m.c1.x * (m.c0.y * m.c2.z - m.c2.y * m.c0.z) +
    m.c2.x * (m.c0.y * m.c1.z - m.c1.y * m.c0.z)

theorem between_apply (m : Matrix R) (u v : Vec3 R) :
    Vec3.between (m.apply u.toPoint) (m.apply v.toPoint) =
      m.turned (Vec3.between u.toPoint v.toPoint) := by
  simp only [Vec3.between, apply, rowDot_eq, turned, Vec3.toPoint, Vec3.mk.injEq]
  refine ⟨?_, ?_, ?_⟩ <;> ring

theorem triple_turned (m : Matrix R) (u v w : Vec3 R) :
    ((m.turned u).cross (m.turned v)).dot (m.turned w) = m.det * (u.cross v).dot w := by
  simp only [Vec3.cross, Vec3.dot, turned, det]
  ring

theorem eq_zero_of_turned [NoZeroDivisors R] (regular : m.det ≠ 0) {v : Vec3 R}
    (lost : m.turned v = Vec3.zero) : v = Vec3.zero := by
  have orthogonal (u w : Vec3 R) : (u.cross w).dot v = 0 := by
    have volume := triple_turned m u w v
    have vanishes : ((m.turned u).cross (m.turned w)).dot Vec3.zero = 0 := by simp [Vec3.dot, Vec3.zero]
    rw [lost, vanishes] at volume
    exact (mul_eq_zero.mp volume.symm).resolve_left regular
  obtain ⟨x, y, z⟩ := v
  have hx := orthogonal ⟨0, 1, 0⟩ ⟨0, 0, 1⟩
  have hy := orthogonal ⟨0, 0, 1⟩ ⟨1, 0, 0⟩
  have hz := orthogonal ⟨1, 0, 0⟩ ⟨0, 1, 0⟩
  simp [Vec3.cross, Vec3.dot] at hx hy hz
  rw [hx, hy, hz, Vec3.zero]

/-- A transform that does not flatten space takes different places to different places. -/
theorem apply_injective [NoZeroDivisors R] (regular : m.det ≠ 0) :
    Function.Injective fun v : Vec3 R => m.apply v.toPoint := by
  intro u v same
  obtain ⟨x, y, z⟩ := u
  obtain ⟨x', y', z'⟩ := v
  have lost : m.turned (Vec3.between (Vec3.toPoint ⟨x, y, z⟩) (Vec3.toPoint ⟨x', y', z'⟩)) =
      Vec3.zero := by
    rw [← between_apply, show m.apply (Vec3.toPoint ⟨x, y, z⟩) = _ from same]
    simp [Vec3.between, Vec3.zero]
  simpa [Vec3.between, Vec3.zero, Vec3.toPoint, sub_eq_zero] using eq_zero_of_turned regular lost

end Flipbook.Matrix

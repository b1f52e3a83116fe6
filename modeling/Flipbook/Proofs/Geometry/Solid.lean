import Flipbook.Geometry.Mesh
import Flipbook.Proofs.Geometry.Matrix
import Mathlib.Algebra.Order.Field.Basic
import Mathlib.Data.Fintype.Basic
import Mathlib.Tactic.FinCases
import Mathlib.Tactic.Linarith
import Mathlib.Tactic.NormNum

/-!
# The surface of a box

A box is the image of a cube, so what is behind the triangles of the cube is behind those of every
box under every transform, up to the factor by which volumes grow. `box_is_oriented` says that all
twelve triangles face away from the box, or all of them into it, and that they leave no gap.
-/

namespace Flipbook

namespace Triangle

variable {R : Type} [CommRing R] {ι : Type}

/-- How far a point is behind the plane of a triangle, in units of the length of its normal. -/
def behind (t : Triangle R) (p : Point R) : R :=
  t.normal.dot (Vec3.between t.a p)

def map (f : Point R → Point R) (t : Triangle R) : Triangle R :=
  ⟨f t.a, f t.b, f t.c⟩

/-- The triangle with three of the given corners. -/
def ofCorners (corner : ι → Vec3 R) (face : ι × ι × ι) : Triangle R :=
  ⟨(corner face.1).toPoint, (corner face.2.1).toPoint, (corner face.2.2).toPoint⟩

theorem behind_map (m : Matrix R) (corner : ι → Vec3 R) (face : ι × ι × ι) (u : Vec3 R) :
    ((ofCorners corner face).map m.apply).behind (m.apply u.toPoint) =
      m.det * (ofCorners corner face).behind u.toPoint := by
  simp only [behind, normal, map, ofCorners, Matrix.between_apply, Matrix.triple_turned]

theorem ofPoints_triangles (corner : ι → Vec3 R) (f : Point R → Point R)
    (faces : List (ι × ι × ι)) :
    ofPoints ((faces.flatMap fun (a, b, c) =>
      Mesh.triangle (corner a) (corner b) (corner c)).map f) =
      faces.map fun face => (ofCorners corner face).map f := by
  induction faces with
  | nil => rfl
  | cons face rest ih => exact congrArg _ ih

end Triangle

/-! ### Closed surfaces -/

/-- The sides of a triangle, each from a corner to the next. -/
def sides {ι : Type} (face : ι × ι × ι) : List (ι × ι) :=
  [(face.1, face.2.1), (face.2.1, face.2.2), (face.2.2, face.1)]

/-- Triangles that leave no gap: each side is a side of one of them only, and the way back along it is
a side of another one and of no further. -/
structure Closed {ι : Type} (faces : List (ι × ι × ι)) : Prop where
  nodup : faces.Nodup
  once : ∀ f ∈ faces, ∀ e ∈ sides f, ∀ g ∈ faces, e ∈ sides g → g = f
  back : ∀ f ∈ faces, ∀ e ∈ sides f, ∃ g ∈ faces, g ≠ f ∧ e.swap ∈ sides g ∧
    ∀ h ∈ faces, e.swap ∈ sides h → h = g

instance {ι : Type} [DecidableEq ι] (faces : List (ι × ι × ι)) : Decidable (Closed faces) :=
  decidable_of_iff (faces.Nodup ∧
      (∀ f ∈ faces, ∀ e ∈ sides f, ∀ g ∈ faces, e ∈ sides g → g = f) ∧
      ∀ f ∈ faces, ∀ e ∈ sides f, ∃ g ∈ faces, g ≠ f ∧ e.swap ∈ sides g ∧
        ∀ h ∈ faces, e.swap ∈ sides h → h = g)
    ⟨fun ⟨nodup, once, back⟩ => ⟨nodup, once, back⟩,
      fun ⟨nodup, once, back⟩ => ⟨nodup, once, back⟩⟩

namespace Mesh

theorem boxFaces_closed : Closed boxFaces := by decide

/-! ### The cube -/

/-- The corners of the cube between (0, 0, 0) and (1, 1, 1), in the order of those of a box. -/
def cubeCorner {R : Type} [OfNat R 0] [OfNat R 1] : Fin 8 → Vec3 R
  | 0 => ⟨0, 0, 0⟩
  | 1 => ⟨1, 0, 0⟩
  | 2 => ⟨1, 1, 0⟩
  | 3 => ⟨0, 1, 0⟩
  | 4 => ⟨0, 0, 1⟩
  | 5 => ⟨1, 0, 1⟩
  | 6 => ⟨1, 1, 1⟩
  | 7 => ⟨0, 1, 1⟩

section

variable {R : Type} [CommRing R]

/-- The place in a box with the given shares of its width, height and depth. -/
def boxPlace (v size share : Vec3 R) : Vec3 R where
  x := v.x + size.x * share.x
  y := v.y - size.y * share.y
  z := v.z - size.z * share.z

/-- The transform that takes the cube to a box. -/
def boxFrame (v size : Vec3 R) : Matrix R :=
  ⟨⟨size.x, 0, 0, 0⟩, ⟨0, -size.y, 0, 0⟩, ⟨0, 0, -size.z, 0⟩, v.toPoint⟩

theorem det_boxFrame (v size : Vec3 R) : (boxFrame v size).det = size.x * size.y * size.z := by
  simp only [Matrix.det, boxFrame]
  ring

theorem boxFrame_apply (v size share : Vec3 R) :
    (boxFrame v size).apply share.toPoint = (boxPlace v size share).toPoint := by
  simp only [Matrix.apply, Matrix.rowDot_eq, boxFrame, boxPlace, Vec3.toPoint, Point.mk.injEq]
  refine ⟨?_, ?_, ?_, ?_⟩ <;> ring

theorem boxCorner_eq (v size : Vec3 R) (i : Fin 8) :
    boxCorner v size i = boxPlace v size (cubeCorner i) := by
  fin_cases i <;> simp [boxPlace, cubeCorner, boxCorner]

/-- How far a place is behind the triangles of the cube, two for each of its faces: front, top, left,
bottom, right and back. -/
theorem cube_behind (u : Vec3 R) :
    boxFaces.map (fun face => (Triangle.ofCorners cubeCorner face).behind u.toPoint) =
      [u.z, u.z, u.y, u.y, u.x, u.x, 1 - u.y, 1 - u.y, 1 - u.x, 1 - u.x, 1 - u.z, 1 - u.z] := by
  simp only [boxFaces, List.map_cons, List.map_nil, Triangle.behind, Triangle.normal,
    Triangle.ofCorners, Vec3.dot, Vec3.cross, Vec3.between, Vec3.toPoint, cubeCorner]
  ring_nf

theorem cubeCorner_injective [Nontrivial R] : Function.Injective (cubeCorner : Fin 8 → Vec3 R) := by
  intro i j same
  fin_cases i <;> fin_cases j <;> simp [cubeCorner] at same ⊢

end

/-! ### The box -/

section

variable {K : Type} [Field K] (v size : Vec3 K) (m : Matrix K)

/-- The triangles of a transformed box. -/
def boxTriangles : List (Triangle K) :=
  Triangle.ofPoints ((box v size).map m.apply)

theorem boxTriangles_eq : boxTriangles v size m =
    boxFaces.map fun face => (Triangle.ofCorners (boxCorner v size) face).map m.apply :=
  Triangle.ofPoints_triangles ..

theorem ofCorners_box (face : Fin 8 × Fin 8 × Fin 8) :
    Triangle.ofCorners (boxCorner v size) face =
      (Triangle.ofCorners cubeCorner face).map (boxFrame v size).apply := by
  simp only [Triangle.ofCorners, Triangle.map, boxFrame_apply, boxCorner_eq]

theorem behind_box (face : Fin 8 × Fin 8 × Fin 8) (share : Vec3 K) :
    ((Triangle.ofCorners (boxCorner v size) face).map m.apply).behind
        (m.apply (boxPlace v size share).toPoint) =
      m.det * (size.x * size.y * size.z) *
        (Triangle.ofCorners cubeCorner face).behind share.toPoint := by
  rw [Triangle.behind_map, ofCorners_box, ← boxFrame_apply, Triangle.behind_map, det_boxFrame]
  ring

/-- A place is behind a triangle of the box as far as it is behind that triangle of the cube. -/
theorem exists_part {t : Triangle K} (member : t ∈ boxTriangles v size m) (share : Vec3 K) :
    ∃ part ∈ [share.z, share.y, share.x, 1 - share.y, 1 - share.x, 1 - share.z],
      t.behind (m.apply (boxPlace v size share).toPoint) =
        m.det * (size.x * size.y * size.z) * part := by
  rw [boxTriangles_eq, List.mem_map] at member
  obtain ⟨face, member, rfl⟩ := member
  refine ⟨_, ?_, behind_box v size m face share⟩
  have measured := List.mem_map_of_mem
    (f := fun face => (Triangle.ofCorners cubeCorner face).behind share.toPoint) member
  rw [cube_behind] at measured
  simpa using measured

theorem corner_injective (solid : m.det * (size.x * size.y * size.z) ≠ 0) :
    Function.Injective fun i => m.apply (boxCorner v size i).toPoint := by
  obtain ⟨regular, box⟩ := mul_ne_zero_iff.mp solid
  rw [← det_boxFrame v size] at box
  refine (Matrix.apply_injective regular).comp fun i j same => ?_
  refine cubeCorner_injective (Matrix.apply_injective box ?_)
  show (boxFrame v size).apply _ = (boxFrame v size).apply _
  rw [boxFrame_apply, boxFrame_apply, ← boxCorner_eq, ← boxCorner_eq, same]

variable [LinearOrder K] [IsStrictOrderedRing K]

/-- The place is in the box or on its surface. -/
def InCube (share : Vec3 K) : Prop :=
  (0 ≤ share.x ∧ share.x ≤ 1) ∧ (0 ≤ share.y ∧ share.y ≤ 1) ∧ 0 ≤ share.z ∧ share.z ≤ 1

theorem exists_part_of_inCube {t : Triangle K} (member : t ∈ boxTriangles v size m)
    {share : Vec3 K} (inside : InCube share) :
    ∃ part, 0 ≤ part ∧ t.behind (m.apply (boxPlace v size share).toPoint) =
      m.det * (size.x * size.y * size.z) * part := by
  obtain ⟨part, among, measured⟩ := exists_part v size m member share
  obtain ⟨⟨x, x'⟩, ⟨y, y'⟩, z, z'⟩ := inside
  refine ⟨part, ?_, measured⟩
  simp only [List.mem_cons, List.not_mem_nil, or_false] at among
  rcases among with rfl | rfl | rfl | rfl | rfl | rfl <;> linarith

theorem behind_center {t : Triangle K} (member : t ∈ boxTriangles v size m) :
    t.behind (m.apply (boxPlace v size ⟨1 / 2, 1 / 2, 1 / 2⟩).toPoint) =
      m.det * (size.x * size.y * size.z) / 2 := by
  obtain ⟨part, among, measured⟩ := exists_part v size m member ⟨1 / 2, 1 / 2, 1 / 2⟩
  have half : part = 1 / 2 := by
    simp only [List.mem_cons, List.not_mem_nil, or_false] at among
    rcases among with rfl | rfl | rfl | rfl | rfl | rfl <;> norm_num
  rw [measured, half, mul_one_div]

/-- The twelve triangles of a box under any transform are wound the same way: each one sees the center
half of the box's signed volume behind it. If that volume is positive the whole box is behind
every triangle, if it is negative in front of every one. Each side of a triangle is the side of
one other, in the opposite direction. -/
theorem box_is_oriented (v size : Vec3 K) (m : Matrix K) :
    let triangles := Triangle.ofPoints ((box v size).map m.apply)
    let corner (i : Fin 8) : Point K := m.apply (boxCorner v size i).toPoint
    let center : Vec3 K := ⟨v.x + size.x / 2, v.y - size.y / 2, v.z - size.z / 2⟩
    let volume := m.det * (size.x * size.y * size.z)
    (∀ t ∈ triangles, t.normal.dot (Vec3.between t.a (m.apply center.toPoint)) = volume / 2) ∧
    (0 < volume → ∀ t ∈ triangles,
      0 < t.behind (m.apply center.toPoint) ∧
      ∀ share, InCube share → 0 ≤ t.behind (m.apply (boxPlace v size share).toPoint)) ∧
    (volume < 0 → ∀ t ∈ triangles,
      t.behind (m.apply center.toPoint) < 0 ∧
      ∀ share, InCube share → t.behind (m.apply (boxPlace v size share).toPoint) ≤ 0) ∧
    triangles = boxFaces.map (fun (a, b, c) => ⟨corner a, corner b, corner c⟩) ∧
    boxFaces.length = 12 ∧ Closed boxFaces ∧ (volume ≠ 0 → Function.Injective corner) := by
  intro triangles corner center volume
  have middle : center = boxPlace v size ⟨1 / 2, 1 / 2, 1 / 2⟩ := by
    simp only [center, boxPlace, mul_one_div]
  have half : ∀ t ∈ triangles, t.behind (m.apply center.toPoint) = volume / 2 := by
    intro t member
    rw [middle]
    exact behind_center v size m member
  refine ⟨half, fun outwards t member => ⟨?_, fun share inside => ?_⟩,
    fun inwards t member => ⟨?_, fun share inside => ?_⟩, boxTriangles_eq v size m, rfl,
    boxFaces_closed, corner_injective v size m⟩
  · rw [half t member]
    exact half_pos outwards
  · obtain ⟨part, nonneg, measured⟩ := exists_part_of_inCube v size m member inside
    rw [measured]
    exact mul_nonneg outwards.le nonneg
  · rw [half t member]
    exact div_neg_of_neg_of_pos inwards two_pos
  · obtain ⟨part, nonneg, measured⟩ := exists_part_of_inCube v size m member inside
    rw [measured]
    exact mul_nonpos_of_nonpos_of_nonneg inwards.le nonneg

/-- A mirrored box is turned inside out. -/
theorem mirrored_box_faces_inwards :
    let mirror : Matrix ℚ := .dilation ⟨-1, 1, 1⟩
    let triangles := Triangle.ofPoints ((box ⟨0, 0, 0⟩ ⟨2, 3, 4⟩).map mirror.apply)
    let center : Vec3 ℚ := ⟨0 + 2 / 2, 0 - 3 / 2, 0 - 4 / 2⟩
    triangles.length = 12 ∧
      ∀ t ∈ triangles, t.normal.dot (Vec3.between t.a (mirror.apply center.toPoint)) = -12 := by
  intro mirror triangles center
  obtain ⟨half, -, -, faces, count, -⟩ := box_is_oriented ⟨0, 0, 0⟩ ⟨2, 3, 4⟩ mirror
  have volume : mirror.det * (2 * 3 * 4) = -24 := by norm_num [mirror, Matrix.det, Matrix.dilation]
  refine ⟨(congrArg List.length faces).trans ((List.length_map _).trans count), fun t member => ?_⟩
  rw [half t member, volume]
  norm_num

end

end Mesh

end Flipbook

import Flipbook.Geometry.Vector

/-!
# Transforms

A matrix is four columns, each a point. `apply` is the product of a matrix and a point, and
`compose a b` sends a point to `a` of `b` of it.
-/

namespace Flipbook

/-- A 4 by 4 matrix, by columns. -/
structure Matrix (α : Type) where
  c0 : Point α
  c1 : Point α
  c2 : Point α
  c3 : Point α
  deriving DecidableEq, Repr

/-- An axis of rotation. -/
inductive Axis
  | x | y | z
  deriving DecidableEq, Repr

namespace Matrix

variable {α : Type}

def identity [OfNat α 0] [OfNat α 1] : Matrix α :=
  ⟨⟨1, 0, 0, 0⟩, ⟨0, 1, 0, 0⟩, ⟨0, 0, 1, 0⟩, ⟨0, 0, 0, 1⟩⟩

/-- The product of a row and a point. The sum starts from minus zero, which leaves even the sign
of a zero term as it is. -/
def rowDot [Add α] [Mul α] [Neg α] [OfNat α 0] (a b c d : α) (p : Point α) : α :=
  -0 + a * p.x + b * p.y + c * p.z + d * p.w

/-- The product of a matrix and a point. -/
def apply [Add α] [Mul α] [Neg α] [OfNat α 0] (m : Matrix α) (p : Point α) : Point α where
  x := rowDot m.c0.x m.c1.x m.c2.x m.c3.x p
  y := rowDot m.c0.y m.c1.y m.c2.y m.c3.y p
  z := rowDot m.c0.z m.c1.z m.c2.z m.c3.z p
  w := rowDot m.c0.w m.c1.w m.c2.w m.c3.w p

/-- The product of two matrices: `b` acts first. -/
def compose [Add α] [Mul α] [Neg α] [OfNat α 0] (a b : Matrix α) : Matrix α :=
  ⟨a.apply b.c0, a.apply b.c1, a.apply b.c2, a.apply b.c3⟩

def translation [OfNat α 0] [OfNat α 1] (v : Vec3 α) : Matrix α :=
  ⟨⟨1, 0, 0, 0⟩, ⟨0, 1, 0, 0⟩, ⟨0, 0, 1, 0⟩, ⟨v.x, v.y, v.z, 1⟩⟩

/-- The transform that scales each coordinate by that of `v`. -/
def dilation [OfNat α 0] [OfNat α 1] (v : Vec3 α) : Matrix α :=
  ⟨⟨v.x, 0, 0, 0⟩, ⟨0, v.y, 0, 0⟩, ⟨0, 0, v.z, 0⟩, ⟨0, 0, 0, 1⟩⟩

/-- The rotation about an axis by the angle with the given sine and cosine. -/
def rotation [Neg α] [OfNat α 0] [OfNat α 1] (axis : Axis) (sin cos : α) : Matrix α :=
  match axis with
  | .x => ⟨⟨1, 0, 0, 0⟩, ⟨0, cos, sin, 0⟩, ⟨0, -sin, cos, 0⟩, ⟨0, 0, 0, 1⟩⟩
  | .y => ⟨⟨cos, 0, -sin, 0⟩, ⟨0, 1, 0, 0⟩, ⟨sin, 0, cos, 0⟩, ⟨0, 0, 0, 1⟩⟩
  | .z => ⟨⟨cos, sin, 0, 0⟩, ⟨-sin, cos, 0, 0⟩, ⟨0, 0, 1, 0⟩, ⟨0, 0, 0, 1⟩⟩

def radians (degrees : Float32) : Float32 :=
  degrees * 0.017453292519943295

/-- The rotation about an axis by an angle in degrees. -/
def turn (axis : Axis) (degrees : Float32) : Matrix Float32 :=
  rotation axis (radians degrees).sin (radians degrees).cos

end Matrix

end Flipbook

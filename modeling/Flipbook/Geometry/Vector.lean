import Flipbook.Number.Scalar

/-!
# Vectors and points

Vectors have three coordinates. Points have a fourth, which is 1 for a place in space.
-/

namespace Flipbook

/-- Three coordinates. -/
structure Vec3 (α : Type) where
  x : α
  y : α
  z : α
  deriving DecidableEq, Repr

/-- A point in homogeneous coordinates. -/
structure Point (α : Type) where
  x : α
  y : α
  z : α
  w : α
  deriving DecidableEq, Repr

variable {α : Type}

def Vec3.toPoint [OfNat α 1] (v : Vec3 α) : Point α :=
  ⟨v.x, v.y, v.z, 1⟩

/-- Whether the place is a finite one. The fourth coordinate does not count. -/
def Point.isFinite [GridNumber α] (p : Point α) : Bool :=
  GridNumber.isFinite p.x && GridNumber.isFinite p.y && GridNumber.isFinite p.z

namespace Vec3

def dot [Add α] [Mul α] (a b : Vec3 α) : α :=
  a.x * b.x + a.y * b.y + a.z * b.z

def cross [Sub α] [Mul α] (a b : Vec3 α) : Vec3 α where
  x := a.y * b.z - a.z * b.y
  y := a.z * b.x - a.x * b.z
  z := a.x * b.y - a.y * b.x

/-- The vector that leads from `b` to `a`. -/
def between [Sub α] (a b : Point α) : Vec3 α :=
  ⟨a.x - b.x, a.y - b.y, a.z - b.z⟩

def scale [Mul α] (v : Vec3 α) (factor : α) : Vec3 α :=
  ⟨v.x * factor, v.y * factor, v.z * factor⟩

def add [Add α] (a b : Vec3 α) : Vec3 α :=
  ⟨a.x + b.x, a.y + b.y, a.z + b.z⟩

def hadamard [Mul α] (a b : Vec3 α) : Vec3 α :=
  ⟨a.x * b.x, a.y * b.y, a.z * b.z⟩

/-- Whether two vectors are equal as their coordinates compare. -/
def agrees [BEq α] (a b : Vec3 α) : Bool :=
  a.x == b.x && a.y == b.y && a.z == b.z

/-- The vector of length 1 in the same direction. The zero vector stays. -/
def normalize [Add α] [Mul α] [Div α] [OfNat α 0] [BEq α] [ShadingNumber α] (v : Vec3 α) : Vec3 α :=
  let length := ShadingNumber.sqrt (v.dot v)
  if length == 0 then ⟨0, 0, 0⟩ else ⟨v.x / length, v.y / length, v.z / length⟩

end Vec3

end Flipbook

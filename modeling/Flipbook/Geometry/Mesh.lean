import Flipbook.Geometry.Vector

/-!
# Point lists of solids

A solid is drawn as triangles: a list of points whose groups of three are the corners of one
triangle each, counterclockwise when seen from outside. Edges are groups of two.
-/

namespace Flipbook

/-- Three corners. -/
structure Triangle (α : Type) where
  a : Point α
  b : Point α
  c : Point α
  deriving DecidableEq, Repr

/-- Two ends. -/
structure Edge (α : Type) where
  a : Point α
  b : Point α
  deriving DecidableEq, Repr

variable {α : Type}

/-- The full groups of three points. -/
def Triangle.ofPoints : List (Point α) → List (Triangle α)
  | a :: b :: c :: rest => ⟨a, b, c⟩ :: ofPoints rest
  | _ => []

/-- The full groups of two points. -/
def Edge.ofPoints : List (Point α) → List (Edge α)
  | a :: b :: rest => ⟨a, b⟩ :: ofPoints rest
  | _ => []

/-- The direction in which a triangle faces. Its length is twice the area. -/
def Triangle.normal [Sub α] [Mul α] (t : Triangle α) : Vec3 α :=
  (Vec3.between t.b t.a).cross (Vec3.between t.c t.a)

namespace Mesh

def triangle [OfNat α 1] (a b c : Vec3 α) : List (Point α) :=
  [a.toPoint, b.toPoint, c.toPoint]

def edge [OfNat α 1] (a b : Vec3 α) : List (Point α) :=
  [a.toPoint, b.toPoint]

/-! ### Boxes -/

/-- The corners of a box whose left upper front corner is `v` and whose width, height and depth
are those of `size`: the front face clockwise from `v`, then the back face. -/
def boxCorner [Add α] [Sub α] (v size : Vec3 α) : Fin 8 → Vec3 α
  | 0 => ⟨v.x, v.y, v.z⟩
  | 1 => ⟨v.x + size.x, v.y, v.z⟩
  | 2 => ⟨v.x + size.x, v.y - size.y, v.z⟩
  | 3 => ⟨v.x, v.y - size.y, v.z⟩
  | 4 => ⟨v.x, v.y, v.z - size.z⟩
  | 5 => ⟨v.x + size.x, v.y, v.z - size.z⟩
  | 6 => ⟨v.x + size.x, v.y - size.y, v.z - size.z⟩
  | 7 => ⟨v.x, v.y - size.y, v.z - size.z⟩

/-- The twelve triangles of a box, two for each face, by their corners. -/
def boxFaces : List (Fin 8 × Fin 8 × Fin 8) :=
  [(0, 2, 1), (0, 3, 2), (4, 1, 5), (4, 0, 1), (7, 0, 4), (7, 3, 0),
    (6, 3, 7), (6, 2, 3), (5, 2, 6), (5, 1, 2), (7, 5, 6), (7, 4, 5)]

def box [Add α] [Sub α] [OfNat α 1] (v size : Vec3 α) : List (Point α) :=
  let corner := boxCorner v size
  boxFaces.flatMap fun (a, b, c) => triangle (corner a) (corner b) (corner c)

/-! ### Round solids -/

/-- The number of steps in which a curved surface is followed in each of its two directions. -/
def steps : Nat := 20

/-- The ratio of a circle's circumference to its diameter. -/
def pi : Float32 := 3.14159265358979323846

/-- The part of the whole way that `i` steps make. -/
def part (i : Nat) : Float32 :=
  Float32.ofNat i / Float32.ofNat steps

/-- The point of a sphere after `i` steps about its axis and `j` steps from pole to pole. -/
def spherePoint (center : Vec3 Float32) (r : Float32) (i j : Nat) : Vec3 Float32 where
  x := r * (pi * part j).cos + center.x
  y := r * (pi * part j).sin * (2 * pi * part i).cos + center.y
  z := r * (pi * part j).sin * (2 * pi * part i).sin + center.z

/-- The surface of a sphere: two triangles for each cell of the grid, one where a cell touches a
pole. -/
def sphere (center : Vec3 Float32) (r : Float32) : List (Point Float32) :=
  let grid := spherePoint center r
  (List.range steps).flatMap fun i =>
    ((List.range (steps - 2)).flatMap fun k =>
      let j := k + 1
      triangle (grid i j) (grid i (j + 1)) (grid (i + 1) (j + 1)) ++
        triangle (grid i j) (grid (i + 1) (j + 1)) (grid (i + 1) j)) ++
    triangle (grid i 0) (grid i 1) (grid (i + 1) 1) ++
    triangle (grid i steps) (grid (i + 1) (steps - 1)) (grid i (steps - 1))

/-- The point of a torus after `i` steps around its axis and `j` steps around its tube. -/
def torusPoint (center : Vec3 Float32) (tube ring : Float32) (i j : Nat) : Vec3 Float32 where
  x := (2 * pi * part i).cos * (tube * (2 * pi * part j).cos + ring) + center.x
  y := tube * (2 * pi * part j).sin + center.y
  z := -(2 * pi * part i).sin * (tube * (2 * pi * part j).cos + ring) + center.z

/-- The surface of a torus: two triangles for each cell of the grid. -/
def torus (center : Vec3 Float32) (tube ring : Float32) : List (Point Float32) :=
  let grid := torusPoint center tube ring
  (List.range steps).flatMap fun i =>
    (List.range steps).flatMap fun j =>
      triangle (grid i j) (grid (i + 1) (j + 1)) (grid i (j + 1)) ++
        triangle (grid i j) (grid (i + 1) j) (grid (i + 1) (j + 1))

end Mesh

end Flipbook

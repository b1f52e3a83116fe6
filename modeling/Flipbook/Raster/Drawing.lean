import Flipbook.Raster.Fill
import Flipbook.Raster.Segment

/-!
# Drawings

The things that can be drawn into a picture, and the fragments each of them makes.
-/

namespace Flipbook

/-- Something to draw. -/
inductive Drawing
  /-- A line from pixel to pixel. -/
  | line (a b : PixelPoint Float32) (color : Color)
  | segment (a b : Point Float32) (color : Color)
  /-- A segment for each two points. -/
  | edges (points : List (Point Float32)) (color : Color)
  | triangle (t : Triangle Float32) (color : Color)
  /-- A shaded triangle for each three points. -/
  | polygons (points : List (Point Float32)) (lighting : Lighting Float32)
      (material : Material Float32)

/-- The fragments of a shaded triangle. One that faces away from the viewer has none. -/
def Triangle.fragments (size : Size) (lighting : Lighting Float32) (material : Material Float32)
    (t : Triangle Float32) : List (Fragment Float32) :=
  let normal := t.normal
  if normal.z ≤ 0 then [] else Fill.fragments size t (lighting.shade material normal)

/-- The fragments of a drawing, in the order in which they are plotted. -/
def Drawing.fragments (size : Size) : Drawing → List (Fragment Float32)
  | line a b color => Line.fragments (GridNumber.keep Float32) a b color
  | segment a b color => Segment.fragments size a b color
  | edges points color =>
    (Edge.ofPoints points).flatMap fun e => Segment.fragments size e.a e.b color
  | triangle t color => Fill.fragments size t color
  | polygons points lighting material =>
    (Triangle.ofPoints points).flatMap (Triangle.fragments size lighting material)

end Flipbook

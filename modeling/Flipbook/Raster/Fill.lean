import Flipbook.Geometry.Mesh
import Flipbook.Raster.Fragment

/-!
# Filled triangles

A triangle is filled row by row, between its long edge and the two short ones. Rows and columns are
those of the truncated coordinates, and only those inside the picture are visited.
-/

namespace Flipbook

namespace Fill

variable {α : Type}

/-- The whole numbers from the first number to the last. -/
def span [LT α] [DecidableLT α] [GridNumber α] (first last : α) : List Int :=
  if last < first then []
  else
    let start := GridNumber.toInt first
    (List.range (GridNumber.toInt last - start + 1).toNat).map fun (i : Nat) => start + (i : Int)

variable [LT α] [LE α] [DecidableLT α] [DecidableLE α] [OfNat α 0] [OfNat α 1]
variable [Add α] [Sub α] [Mul α] [Div α] [GridNumber α]

/-- The whole numbers from `lo` to `hi` that are at least 0 and less than `count`. -/
def visible (count : Nat) (lo hi : α) : List Int :=
  span (greater lo 0) (lesser hi (GridNumber.ofInt count - 1))

/-- The corners in the order of their heights. Only a strictly greater height moves up. -/
def sortByHeight (t : Triangle α) : Triangle α :=
  let swapLow (t : Triangle α) : Triangle α := if t.b.y < t.a.y then ⟨t.b, t.a, t.c⟩ else t
  let swapHigh (t : Triangle α) : Triangle α := if t.c.y < t.b.y then ⟨t.a, t.c, t.b⟩ else t
  swapLow (swapHigh (swapLow t))

/-- A column and a depth on an edge of the triangle. -/
structure Crossing (α : Type) where
  x : α
  depth : α
  deriving DecidableEq, Repr

/-- Where the edge from `p` to `q` is after the part `t` of the way. -/
def crossing (p q : Point α) (t : α) : Crossing α :=
  ⟨GridNumber.trunc (p.x + (q.x - p.x) * t), p.z + (q.z - p.z) * t⟩

/-- The fragments of one row between two crossings. -/
def row (width : Nat) (y : Int) (color : Color) (start stop : Crossing α) : List (Fragment α) :=
  let (l, r) := if start.x ≤ stop.x then (start, stop) else (stop, start)
  let step := (r.depth - l.depth) / (r.x - l.x + 1)
  (visible width l.x r.x).map fun x =>
    ⟨x, y, l.depth + step * (GridNumber.ofInt x - l.x), color⟩

/-- The two crossings of a row with the edges of a triangle sorted by height. -/
def crossings (t : Triangle α) (y : Int) : Crossing α × Crossing α :=
  let bottom := GridNumber.trunc t.a.y
  let middle := GridNumber.trunc t.b.y
  let top := GridNumber.trunc t.c.y
  let height : α := GridNumber.ofInt y
  let long := crossing t.a t.c ((height - bottom) / (top - bottom + 1))
  let short :=
    if height < middle then crossing t.a t.b ((height - bottom) / (middle - bottom + 1))
    else crossing t.b t.c ((height - middle) / (top - middle + 1))
  (long, short)

/-- The rows of the picture that a triangle sorted by height touches. -/
def rows (height : Nat) (t : Triangle α) : List Int :=
  visible height (GridNumber.trunc t.a.y) (GridNumber.trunc t.c.y)

/-- A triangle of one color. One with a corner that is not finite is not filled. -/
def fragments (size : Size) (t : Triangle α) (color : Color) : List (Fragment α) :=
  if t.a.isFinite && t.b.isFinite && t.c.isFinite then
    let t := sortByHeight t
    (rows size.height t).flatMap fun y =>
      row size.width y color (crossings t y).1 (crossings t y).2
  else []

end Fill

end Flipbook

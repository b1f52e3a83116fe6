import Flipbook.Geometry.Mesh
import Flipbook.Raster.Line

/-!
# Clipped segments

A segment in space is cut to the rectangle of the picture before it is stepped. The regions around
the rectangle have codes: a segment whose ends share a side of the rectangle misses it, and
otherwise an end outside moves to the border that its code names first.
-/

namespace Flipbook

namespace Clip

/-- On which outer sides of the rectangle a place lies. -/
structure Region where
  left : Bool
  right : Bool
  below : Bool
  above : Bool
  deriving DecidableEq, Repr

/-- The region of the rectangle itself. -/
def Region.isInside (r : Region) : Bool :=
  !(r.left || r.right || r.below || r.above)

/-- Whether two places lie on one outer side. -/
def Region.share (r s : Region) : Bool :=
  (r.left && s.left) || (r.right && s.right) || (r.below && s.below) || (r.above && s.above)

variable {β : Type} [Add β] [Sub β] [Mul β] [Div β] [OfNat β 0] [LT β] [DecidableLT β]

/-- The region of a place around the rectangle `[0, maxX] × [0, maxY]`. -/
def region (maxX maxY : β) (p : Vec3 β) : Region :=
  ⟨p.x < 0, maxX < p.x, p.y < 0, maxY < p.y⟩

/-- The point at the part `t` of the way from `p` to `q`. -/
def along (p q : Vec3 β) (t : β) : Vec3 β :=
  ⟨p.x + (q.x - p.x) * t, p.y + (q.y - p.y) * t, p.z + (q.z - p.z) * t⟩

/-- The end `p` of a segment, outside in the region `r`, moved along it to a border. It lands
exactly there. -/
def moveToBorder (maxX maxY : β) (r : Region) (p q : Vec3 β) : Vec3 β :=
  let toX (border : β) := { along p q ((border - p.x) / (q.x - p.x)) with x := border }
  let toY (border : β) := { along p q ((border - p.y) / (q.y - p.y)) with y := border }
  if r.left then toX 0 else if r.right then toX maxX else if r.below then toY 0 else toY maxY

/-- Clips a segment in at most `n` passes. Each moves one end, the first if it is outside. -/
def passes (maxX maxY : β) : Nat → Vec3 β → Vec3 β → Option (Vec3 β × Vec3 β)
  | 0, _, _ => none
  | n + 1, p, q =>
    let r := region maxX maxY p
    let s := region maxX maxY q
    if r.isInside && s.isInside then some (p, q)
    else if r.share s then none
    else if !r.isInside then passes maxX maxY n (moveToBorder maxX maxY r p q) q
    else passes maxX maxY n p (moveToBorder maxX maxY s q p)

/-- The part of a segment over the rectangle. Each end moves at most four times. -/
def segment (maxX maxY : β) (p q : Vec3 β) : Option (Vec3 β × Vec3 β) :=
  passes maxX maxY 8 p q

end Clip

namespace Segment

variable {α β : Type} [Add α] [Sub α] [Div α] [GridNumber α] [Widening α β]
variable [Add β] [Sub β] [Mul β] [Div β] [OfNat β 0] [OfNat β 1] [LT β] [DecidableLT β] [GridNumber β]

/-- The part of a segment over a picture. A segment with an end that is not finite has none. -/
def clip (size : Size) (a b : Point α) : Option (Vec3 β × Vec3 β) :=
  let wide (p : Point α) : Vec3 β :=
    ⟨Widening.widen p.x, Widening.widen p.y, Widening.widen p.z⟩
  if a.isFinite && b.isFinite then
    Clip.segment (GridNumber.ofInt size.width - 1) (GridNumber.ofInt size.height - 1) (wide a)
      (wide b)
  else none

def pixel (p : Vec3 β) : PixelPoint α :=
  ⟨GridNumber.toInt p.x, GridNumber.toInt p.y, Widening.narrow p.z⟩

def fragments (size : Size) (a b : Point α) (color : Color) : List (Fragment α) :=
  match clip size a b with
  | some (p, q) => Line.fragments (GridNumber.keep β) (pixel p) (pixel q) color
  | none => []

end Segment

end Flipbook

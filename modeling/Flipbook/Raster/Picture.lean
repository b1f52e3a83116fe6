import Flipbook.Raster.Drawing

/-!
# Pictures

A picture is a grid of pixels with depths. A fragment is shown unless its pixel already holds a
nearer one. Rows are stored from top to bottom, while fragments count them from below.
-/

namespace Flipbook

/-- A color as it is stored. -/
structure Rgb where
  red : UInt8
  green : UInt8
  blue : UInt8
  deriving DecidableEq, Repr, Inhabited

/-- A pixel: what it shows, and how near that is. -/
structure Pixel where
  color : Rgb
  depth : Float32
  deriving DecidableEq

/-- The depth of a pixel on which nothing is drawn. -/
def farthest : Float32 := -1 / 0

/-- A picture. -/
structure Picture where
  size : Size
  maxColor : Nat
  background : Color
  /-- The pixels, row by row from the top. -/
  pixels : Vector Pixel (size.width * size.height)

namespace Picture

/-- The stored color. Channels above the greatest value, or above 255, are cut there. -/
def store (maxColor : Nat) (c : Color) : Rgb :=
  let cut (n : Nat) : UInt8 := (min n (min maxColor 255)).toUInt8
  ⟨cut c.red, cut c.green, cut c.blue⟩

/-- A picture that shows its background only. -/
def new (size : Size) (maxColor : Nat) (background : Color) : Picture where
  size := size
  maxColor := maxColor
  background := background
  pixels := .replicate _ ⟨store maxColor background, farthest⟩

/-- The picture with everything drawn on it removed. -/
def clear (p : Picture) : Picture :=
  new p.size p.maxColor p.background

/-- The place of a pixel in the store, if the picture has it. -/
def index? (size : Size) (x y : Int) : Option (Fin (size.width * size.height)) :=
  if h : 0 ≤ x ∧ x < size.width ∧ 0 ≤ y ∧ y < size.height then
    let row := size.height - 1 - y.toNat
    some ⟨row * size.width + x.toNat, by
      have hrow : row + 1 ≤ size.height := by omega
      have : (row + 1) * size.width ≤ size.height * size.width := Nat.mul_le_mul_right _ hrow
      rw [Nat.succ_mul, Nat.mul_comm size.height] at this
      omega⟩
  else none

/-- The pixel in column `x` and row `y`, from the left and from below. -/
def pixel? (p : Picture) (x y : Int) : Option Pixel :=
  (index? p.size x y).map fun i => p.pixels[i]

/-- Shows a fragment, unless its pixel holds a nearer one or the picture has no such pixel. -/
def plot (p : Picture) (f : Fragment Float32) : Picture :=
  match index? p.size f.x f.y with
  | none => p
  | some i =>
    if f.depth < p.pixels[i].depth then p
    else { p with pixels := p.pixels.set i ⟨store p.maxColor f.color, f.depth⟩ }

def plotAll (p : Picture) (fragments : List (Fragment Float32)) : Picture :=
  fragments.foldl plot p

/-- Draws something. A line is plotted step by step, however long it is. -/
def draw (p : Picture) : Drawing → Picture
  | .line a b color => Line.fold plot (GridNumber.keep Float32) a b color p
  | d => p.plotAll (d.fragments p.size)

theorem draw_eq_plotAll (p : Picture) (d : Drawing) : p.draw d = p.plotAll (d.fragments p.size) := by
  cases d with
  | line => exact Line.fold_eq ..
  | segment | edges | triangle | polygons => rfl

/-- The stored colors, row by row from the top. -/
def colors (p : Picture) : List Rgb :=
  p.pixels.toList.map (·.color)

end Picture

end Flipbook

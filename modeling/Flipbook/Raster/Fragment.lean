import Flipbook.Lighting

/-!
# Fragments

Everything that is drawn becomes fragments first: colored points of the pixel grid with a depth.
Which fragments a drawing makes depends on the size of the picture, never on what it shows.
-/

namespace Flipbook

/-- A colored point over the pixel in column `x` and row `y`, counted from the left and from below.
Greater depths are nearer. -/
structure Fragment (α : Type) where
  x : Int
  y : Int
  depth : α
  color : Color
  deriving DecidableEq, Repr

/-- The size of a picture in pixels. -/
structure Size where
  width : Nat
  height : Nat
  deriving DecidableEq, Repr

/-- Whether a fragment lies over a pixel of the picture. -/
def Fragment.inside {α : Type} (size : Size) (f : Fragment α) : Bool :=
  0 ≤ f.x && f.x < size.width && 0 ≤ f.y && f.y < size.height

end Flipbook

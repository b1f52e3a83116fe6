import Flipbook.Error
import Flipbook.Raster.Picture

/-!
# Images

What a picture hands over to be saved, what is read back from a file, and the frames of an animation.
-/

namespace Flipbook

/-- A color and how much of it is seen, from 0 to 255. -/
structure Rgba where
  red : UInt8
  green : UInt8
  blue : UInt8
  alpha : UInt8
  deriving DecidableEq, Repr, Inhabited

/-- The color without anything showing through. -/
def Rgb.solid (c : Rgb) : Rgba :=
  ⟨c.red, c.green, c.blue, 255⟩

namespace Studio

/-- The visible part of a picture. Its width and its height are words of 32 bits, as files store
them. -/
structure Image where
  width : UInt32
  height : UInt32
  /-- The pixels, row by row from the top. -/
  colors : List Rgb
  deriving DecidableEq

/-- The image that a picture shows. Of a side that takes more than a word, the low word is kept. -/
def Image.of (p : Picture) : Image :=
  ⟨p.size.width.toUInt32, p.size.height.toUInt32, p.colors⟩

/-- There are as many pixels as the two sides say. -/
def Image.Sized (image : Image) : Prop :=
  image.colors.length = image.width.toNat * image.height.toNat

instance (image : Image) : Decidable image.Sized :=
  inferInstanceAs (Decidable (_ = _))

/-- An image as it is read from a file. -/
structure RgbaImage where
  width : UInt32
  height : UInt32
  /-- The pixels, row by row from the top. -/
  pixels : List Rgba
  deriving DecidableEq

def Image.solid (image : Image) : RgbaImage :=
  ⟨image.width, image.height, image.colors.map Rgb.solid⟩

/-- A frame of an animation. -/
structure AnimationFrame where
  image : RgbaImage
  /-- Where the image lies on the animation. -/
  left : UInt32
  top : UInt32
  /-- How long it is shown, in milliseconds. -/
  delay : Nat
  deriving DecidableEq

end Studio

end Flipbook

import Flipbook.Studio.Image

/-!
# Words in files

Numbers of a fixed number of bytes, in the two orders in which image formats write them, and the
rows of an image.
-/

namespace Flipbook.Studio.Encoding

/-- The last `count` bytes of a number, the last one first. -/
def littleEndian : (count : Nat) → Nat → List UInt8
  | 0, _ => []
  | count + 1, n => n.toUInt8 :: littleEndian count (n / 256)

/-- The last `count` bytes of a number in their order. -/
def bigEndian (count n : Nat) : List UInt8 :=
  (littleEndian count n).reverse

/-- The number with some bytes, the last one first. -/
def fromLittleEndian : List UInt8 → Nat
  | [] => 0
  | byte :: rest => byte.toNat + 256 * fromLittleEndian rest

def fromBigEndian (bytes : List UInt8) : Nat :=
  fromLittleEndian bytes.reverse

/-- The `count` bytes of a file from the place `start` on. -/
def slice (start count : Nat) (bytes : List UInt8) : List UInt8 :=
  (bytes.drop start).take count

/-- The first `count` pieces of a list, each of `size` elements. -/
def pieces {α : Type} (size : Nat) : (count : Nat) → List α → List (List α)
  | 0, _ => []
  | count + 1, all => all.take size :: pieces size count (all.drop size)

/-- The rows of an image, from the top. One without pixels has none. -/
def rows (image : Image) : List (List Rgb) :=
  pieces image.width.toNat (image.colors.length / image.width.toNat) image.colors

end Flipbook.Studio.Encoding

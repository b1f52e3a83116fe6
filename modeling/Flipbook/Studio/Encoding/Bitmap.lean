import Flipbook.Studio.Encoding.Word

/-!
# Bitmap files

An uncompressed bitmap of 24 bits for each pixel. Rows are written from the bottom, each filled up
to a multiple of four bytes, and the channels of a pixel in the order blue, green, red. Only files of
this form are read.
-/

namespace Flipbook.Studio.Encoding.Bitmap

/-- The bytes of a bitmap before its first pixel. -/
def headerSize : Nat := 54

/-- The bytes of a row in a bitmap: three for each pixel, filled up to a multiple of four. -/
def rowSize (width : Nat) : Nat :=
  (3 * width + 3) / 4 * 4

/-- Whether a bitmap has room for an image: the size of a row and the size of the file have to be
words of 32 bits. -/
def fits (image : Image) : Bool :=
  let row := rowSize image.width.toNat
  row < UInt32.size && headerSize + image.height.toNat * row < UInt32.size

def row (colors : List Rgb) : List UInt8 :=
  colors.flatMap (fun c => [c.blue, c.green, c.red]) ++ List.replicate (colors.length % 4) 0

/-- The letters BM. -/
def signature : List UInt8 := [0x42, 0x4D]

/-- The header of a bitmap whose rows take `size` bytes. -/
def header (image : Image) (size : Nat) : List UInt8 :=
  signature ++ littleEndian 4 (headerSize + size) ++ littleEndian 4 0 ++
    littleEndian 4 headerSize ++ littleEndian 4 40 ++ littleEndian 4 image.width.toNat ++
    littleEndian 4 image.height.toNat ++ littleEndian 2 1 ++ littleEndian 2 24 ++
    littleEndian 4 0 ++ littleEndian 4 size ++ List.replicate 16 0

def file (image : Image) : List UInt8 :=
  let data := (rows image).reverse.flatMap row
  header image data.length ++ data

/-! ### Reading -/

/-- The places of the sides in a file. -/
def widthPlace : Nat := 18
def heightPlace : Nat := 22

def colors : List UInt8 → List Rgb
  | blue :: green :: red :: rest => ⟨red, green, blue⟩ :: colors rest
  | _ => []

/-- The image of a file, if it has the form that is written. -/
def read (bytes : List UInt8) : Except ImageError Image :=
  let width := (fromLittleEndian (slice widthPlace 4 bytes)).toUInt32
  let height := (fromLittleEndian (slice heightPlace 4 bytes)).toUInt32
  let size := rowSize width.toNat
  let data := bytes.drop headerSize
  let image : Image :=
    ⟨width, height, (pieces size (data.length / size) data).reverse.flatMap fun row =>
      colors (row.take (3 * width.toNat))⟩
  if file image = bytes then .ok image else .error .decoding

end Flipbook.Studio.Encoding.Bitmap

import Flipbook.Studio.Encoding.Word

/-!
# PNG files

A file is a signature and chunks, each with a checksum. The pixels stand in one chunk as a stream
that is stored without compression. Only files of this form are read.
-/

namespace Flipbook.Studio.Encoding.Png

/-! ### Checksums -/

/-- One bit of a CRC-32, whose polynomial is `0xEDB88320` with its lowest term first. -/
def crcBit (crc : UInt32) : UInt32 :=
  if crc &&& 1 = 1 then (crc >>> 1) ^^^ 0xEDB88320 else crc >>> 1

def crcByte (crc : UInt32) (byte : UInt8) : UInt32 :=
  Nat.repeat crcBit 8 (crc ^^^ byte.toUInt32)

def crc (bytes : List UInt8) : UInt32 :=
  bytes.foldl crcByte 0xFFFFFFFF ^^^ 0xFFFFFFFF

/-- The Adler-32 checksum of some bytes: two sums modulo the greatest prime below 2 ^ 16. -/
def adler (bytes : List UInt8) : Nat :=
  let (a, b) := bytes.foldl
    (fun (a, b) byte => let a := (a + byte.toNat) % 65521; (a, (b + a) % 65521)) (1, 0)
  b * 65536 + a

/-! ### Streams -/

/-- The greatest number of bytes in a stored block. -/
def maxBlock : Nat := 65535

/-- The bytes of a block before the stored ones. -/
def blockHeaderSize : Nat := 5

def block (final : Bool) (bytes : List UInt8) : List UInt8 :=
  (if final then 1 else 0) :: littleEndian 2 bytes.length ++
    littleEndian 2 (maxBlock - bytes.length) ++ bytes

/-- Bytes as `full` blocks of the greatest size and a last one. -/
def blocks : (full : Nat) → List UInt8 → List UInt8
  | 0, bytes => block true bytes
  | full + 1, bytes => block false (bytes.take maxBlock) ++ blocks full (bytes.drop maxBlock)

/-- The bytes in `full` blocks of the greatest size and a last one. -/
def unblock : (full : Nat) → List UInt8 → List UInt8
  | 0, stored => stored.drop blockHeaderSize
  | full + 1, stored =>
    slice blockHeaderSize maxBlock stored ++ unblock full (stored.drop (blockHeaderSize + maxBlock))

/-! ### Files -/

/-- A part of a file: its length, its kind, its bytes and their checksum. -/
def chunk (kind bytes : List UInt8) : List UInt8 :=
  bigEndian 4 bytes.length ++ kind ++ bytes ++ bigEndian 4 (crc (kind ++ bytes)).toNat

def signature : List UInt8 := [0x89, 0x50, 0x4E, 0x47, 0x0D, 0x0A, 0x1A, 0x0A]

/-- The kind of the chunk with the sides, called IHDR. -/
def sidesKind : List UInt8 := [0x49, 0x48, 0x44, 0x52]

/-- The kind of the chunk with the pixels, called IDAT. -/
def pixelsKind : List UInt8 := [0x49, 0x44, 0x41, 0x54]

/-- The kind of the last chunk, called IEND. -/
def endKind : List UInt8 := [0x49, 0x45, 0x4E, 0x44]

/-- The sides of an image, and that a pixel has three channels of eight bits. -/
def sides (image : Image) : List UInt8 :=
  bigEndian 4 image.width.toNat ++ bigEndian 4 image.height.toNat ++ [8, 2, 0, 0, 0]

/-- One row. It begins with the filter that is used, which is none. -/
def row (colors : List Rgb) : List UInt8 :=
  0 :: colors.flatMap fun c => [c.red, c.green, c.blue]

def payload (image : Image) : List UInt8 :=
  (rows image).flatMap row

/-- The pixels of an image as a stream, with its header and its checksum. -/
def stream (image : Image) : List UInt8 :=
  let bytes := payload image
  [0x78, 0x01] ++ blocks ((bytes.length - 1) / maxBlock) bytes ++ bigEndian 4 (adler bytes)

def file (image : Image) : List UInt8 :=
  signature ++ chunk sidesKind (sides image) ++ chunk pixelsKind (stream image) ++ chunk endKind []

/-! ### Reading -/

/-- The places of the sides and of the first block in a file, and the bytes behind the last block. -/
def widthPlace : Nat := 16
def heightPlace : Nat := 20
def blocksPlace : Nat := 43
def trailerSize : Nat := 20

def colors : List UInt8 → List Rgb
  | red :: green :: blue :: rest => ⟨red, green, blue⟩ :: colors rest
  | _ => []

/-- The image of a file, if it has the form that is written. -/
def read (bytes : List UInt8) : Except ImageError Image :=
  let width := (fromBigEndian (slice widthPlace 4 bytes)).toUInt32
  let height := (fromBigEndian (slice heightPlace 4 bytes)).toUInt32
  let stored := slice blocksPlace (bytes.length - (blocksPlace + trailerSize)) bytes
  let payload := unblock ((stored.length - 1) / (blockHeaderSize + maxBlock)) stored
  let rowSize := 3 * width.toNat + 1
  let image : Image :=
    ⟨width, height, (pieces rowSize (payload.length / rowSize) payload).flatMap fun row =>
      colors (row.drop 1)⟩
  if file image = bytes then .ok image else .error .decoding

end Flipbook.Studio.Encoding.Png

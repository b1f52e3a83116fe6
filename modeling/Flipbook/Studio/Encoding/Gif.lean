import Flipbook.Studio.Encoding.Word
import Flipbook.Studio.Library

/-!
# GIF files

All frames share one table of colors, in which each channel has six levels. Pixels are written as
codes of nine bits. The table of codes is cleared before it would need a tenth bit, so every pixel
keeps the code of its color.
-/

namespace Flipbook.Studio.Encoding.Gif

/-! ### Colors -/

def levels : Nat := 6

def level (channel : UInt8) : Nat :=
  (channel.toNat * (levels - 1) + 127) / 255

/-- The place of the nearest color in the table. -/
def index (c : Rgba) : Nat :=
  (level c.red * levels + level c.green) * levels + level c.blue

/-- The table of 256 colors. The places after the last color are black. -/
def table : List UInt8 :=
  let channel (level : Nat) : UInt8 := (level * 255 / (levels - 1)).toUInt8
  let used := (List.range (levels * levels * levels)).flatMap fun i =>
    [channel (i / (levels * levels)), channel (i / levels % levels), channel (i % levels)]
  used ++ List.replicate (3 * 256 - used.length) 0

/-! ### Codes -/

/-- The code that clears the table of codes. -/
def clearCode : Nat := 256

/-- The code behind the last pixel. -/
def endCode : Nat := 257

/-- The number of pixels between two clearings. -/
def run : Nat := 250

def codes (colors : List Rgba) : List Nat :=
  ((colors.zipIdx.flatMap fun (c, i) =>
    if i % run = 0 then [clearCode, index c] else [index c])) ++ [endCode]

/-- Codes of nine bits packed into bytes, the lowest bits first. -/
def pack (codes : List Nat) : List UInt8 :=
  let (bytes, waiting, count) := codes.foldl
    (fun (bytes, waiting, count) code =>
      let waiting := waiting + code <<< count
      let count := count + 9
      if count < 16 then (bytes.push waiting.toUInt8, waiting / 256, count - 8)
      else (bytes.push waiting.toUInt8 |>.push (waiting / 256).toUInt8, waiting / 65536, count - 16))
    ((#[] : Array UInt8), 0, 0)
  bytes.toList ++ if count = 0 then [] else [waiting.toUInt8]

/-- The greatest number of bytes in a block. -/
def maxBlock : Nat := 255

/-- Bytes as blocks, behind the last of which an empty one stands. -/
def blocks (bytes : List UInt8) : List UInt8 :=
  let parts := pieces maxBlock ((bytes.length + (maxBlock - 1)) / maxBlock) bytes
  (parts.flatMap fun part => part.length.toUInt8 :: part) ++ [0]

/-! ### Frames -/

/-- The greatest width and height of an animation. -/
def maxSide : UInt32 := 65535

/-- The greatest delay of a frame, in hundredths of a second. -/
def maxDelay : Nat := 65535

def fits (image : RgbaImage) : Bool :=
  image.width ≤ maxSide && image.height ≤ maxSide

def frame (f : AnimationFrame) : List UInt8 :=
  [0x21, 0xF9, 4, 0] ++ littleEndian 2 (min (f.delay / 10) maxDelay) ++ [0, 0] ++
    [0x2C] ++ littleEndian 2 f.left.toNat ++ littleEndian 2 f.top.toNat ++
    littleEndian 2 f.image.width.toNat ++ littleEndian 2 f.image.height.toNat ++ [0] ++
    [8] ++ blocks (pack (codes f.image.pixels))

/-- The extension that makes an animation start again at its end. -/
def forever : List UInt8 :=
  [0x21, 0xFF, 11, 0x4E, 0x45, 0x54, 0x53, 0x43, 0x41, 0x50, 0x45, 0x32, 0x2E, 0x30, 3, 1, 0, 0, 0]

/-- The letters GIF89a. -/
def signature : List UInt8 := [0x47, 0x49, 0x46, 0x38, 0x39, 0x61]

def header (image : RgbaImage) : List UInt8 :=
  signature ++ littleEndian 2 image.width.toNat ++ littleEndian 2 image.height.toNat ++
    [0xF7, 0, 0] ++ table

/-! ### Encoding -/

/-- How far an animation is written. -/
structure Encoder where
  repeats : Bool
  /-- The header is written, with the size of the first frame. -/
  begun : Bool
  deriving DecidableEq, Repr

def fresh : Encoder := ⟨false, false⟩

def repeatForever (e : Encoder) : Progress Encoder :=
  ⟨{ e with repeats := true }, if e.begun then forever else [], .ok ()⟩

/-- Writes a frame, with the header before the first. One that is too great leaves all as it is. -/
def addFrame (f : AnimationFrame) (e : Encoder) : Progress Encoder :=
  if fits f.image then
    let before := if e.begun then [] else header f.image ++ if e.repeats then forever else []
    ⟨{ e with begun := true }, before ++ frame f, .ok ()⟩
  else ⟨e, [], .error .parameter⟩

/-- Writes the end of an animation, if it has a beginning. -/
def finish (e : Encoder) : List UInt8 :=
  if e.begun then [0x3B] else []

end Flipbook.Studio.Encoding.Gif

import Flipbook.Studio.FileTree
import Flipbook.Studio.Image

/-!
# Image libraries

Studios leave the formats of image files to a library. It saves an image in a file and reads one back,
and it encodes animations frame by frame.
-/

namespace Flipbook.Studio

/-- What an encoder has done with what it was handed. -/
structure Progress (ε : Type) where
  encoder : ε
  /-- The bytes it has written, also if it has failed. -/
  written : List UInt8
  outcome : Except ImageError Unit

/-- A library of image formats. What a format looks like is up to the library. -/
structure ImageLibrary where
  /-- Saves an image in a file. -/
  save : FileTree → String → Image → FileTree × Except ImageError Unit
  /-- Reads the image in a file. -/
  load : FileTree → String → Except ImageError RgbaImage
  /-- The encoders of animations. -/
  Encoder : Type
  /-- An encoder that has not been handed anything. -/
  fresh : Encoder
  /-- Makes the animation start again at its end. -/
  repeatForever : Encoder → Progress Encoder
  addFrame : AnimationFrame → Encoder → Progress Encoder
  /-- What an encoder writes when it is given up. -/
  finish : Encoder → List UInt8

end Flipbook.Studio

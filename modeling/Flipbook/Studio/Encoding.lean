import Flipbook.Studio.Encoding.Bitmap
import Flipbook.Studio.Encoding.Gif
import Flipbook.Studio.Encoding.Png

/-!
# Plain formats

A library that writes every format in its simplest form, without compression. The format follows from
the extension of the file.
-/

namespace Flipbook.Studio

/-- A format by which a file can be called. -/
inductive ImageFormat
  | png | bmp | gif
  /-- A format that is known, but that nothing here writes. -/
  | foreign
  deriving DecidableEq, Repr

def imageExtensions : List (String × ImageFormat) :=
  [("png", .png), ("apng", .png), ("bmp", .bmp), ("gif", .gif)] ++
    ["avif", "jpg", "jpeg", "jfif", "webp", "tif", "tiff", "tga", "dds", "ico", "hdr", "exr", "pbm",
      "pam", "ppm", "pgm", "pnm", "ff", "qoi"].map (·, .foreign)

namespace ImageFormat

/-- The format of a file. Capitals in the extension do not matter. -/
def ofPath? (path : Path) : Option ImageFormat :=
  path.extension?.bind fun extension => imageExtensions.lookup extension.toLower

/-- An animation of one frame. -/
def encodeStill (image : RgbaImage) : Except ImageError (List UInt8) :=
  let added := Encoding.Gif.addFrame ⟨image, 0, 0, 0⟩ Encoding.Gif.fresh
  added.outcome.map fun _ => added.written ++ Encoding.Gif.finish added.encoder

/-- The bytes of an image in a format. -/
def encode (format : ImageFormat) (image : Image) : Except ImageError (List UInt8) :=
  if ¬ image.Sized then .error .parameter
  else
    match format with
    | .foreign => .error .unsupported
    | .png =>
      if image.width = 0 ∨ image.height = 0 then .error (.storage .other)
      else .ok (Encoding.Png.file image)
    | .bmp => if Encoding.Bitmap.fits image then .ok (Encoding.Bitmap.file image) else .error .parameter
    | .gif => encodeStill image.solid

/-- The image in the bytes of a format. Animations are not read. -/
def decode (format : ImageFormat) (bytes : List UInt8) : Except ImageError RgbaImage :=
  match format with
  | .png => (Encoding.Png.read bytes).map Image.solid
  | .bmp => (Encoding.Bitmap.read bytes).map Image.solid
  | .gif | .foreign => .error .unsupported

end ImageFormat

/-- The library of plain formats. A file whose format refuses the image is left empty. -/
def plainFormats : ImageLibrary where
  save files path image :=
    match ImageFormat.ofPath? (.ofText path) with
    | none => (files, .error .unsupported)
    | some format =>
      match files.create path with
      | .error e => (files, .error (.storage e))
      | .ok (files, place) =>
        match format.encode image with
        | .error e => (files, .error e)
        | .ok bytes => (files.append place bytes, .ok ())
  load files path :=
    match files.read path with
    | .error e => .error (.storage e)
    | .ok bytes =>
      match ImageFormat.ofPath? (.ofText path) with
      | none => .error .unsupported
      | some format => format.decode bytes
  Encoder := Encoding.Gif.Encoder
  fresh := Encoding.Gif.fresh
  repeatForever := Encoding.Gif.repeatForever
  addFrame := Encoding.Gif.addFrame
  finish := Encoding.Gif.finish

end Flipbook.Studio

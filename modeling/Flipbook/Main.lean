import Flipbook.Options
import Flipbook.Studio.Basic
import Flipbook.Studio.Encoding

/-!
# Command line

`flipbook` runs the scripts of its command line one after the other, in the working directory, and
ends with the first failure. There is no screen to show pictures on.
-/

namespace Flipbook.CommandLine

open Studio

/-- The script that is run if none is named. -/
def defaultScript : String := "scripts/orbit.mdl"

def usage : String :=
  "Usage: flipbook [--frame-dir DIR] [--delay-ms N] [--width W] [--height H] [SCRIPTS]..."

def version : String := "flipbook 0.1.0"

/-- What is printed for arguments that start no run. -/
def answerText : UsageError → String
  | .valueMissing => "error: the value of an option is missing"
  | .invalidValue => "error: the value of an option is no number that it takes"
  | .unknownArgument => "error: an argument is not known"
  | .repeatedOption => "error: an option is given twice"
  | .tooManyValues => "error: a value is given to an option that takes none"
  | .help => usage
  | .version => version

/-- What a run on the file system holds. -/
structure Workshop where
  picture : Picture
  /-- The files of the kept frames, in order. -/
  kept : List String
  /-- How long each frame is shown, in milliseconds. -/
  delay : Nat

/-- The value, or the message of the error. -/
def orThrow {ε α : Type} (message : ε → String) : Except ε α → IO α
  | .ok a => return a
  | .error e => throw (.userError (message e))

def report (entry : LogEntry) : IO Unit :=
  if entry.level.isShown then IO.eprintln s!"[{entry.level.name}] {entry.text}" else return ()

def formatOf (path : String) : IO ImageFormat :=
  let format? := ImageFormat.ofPath? (.ofText path)
  orThrow ImageError.message (format?.elim (.error .unsupported) .ok)

def toBytes (bytes : List UInt8) : ByteArray :=
  ⟨bytes.toArray⟩

/-- Saves an image in a file. A file whose format refuses the image is left empty. -/
def saveFile (path : String) (image : Image) : IO Unit := do
  let format ← formatOf path
  IO.FS.writeBinFile path (toBytes [])
  let bytes ← orThrow ImageError.message (format.encode image)
  IO.FS.writeBinFile path (toBytes bytes)
  report (.saved path)

def loadFile (path : String) : IO RgbaImage := do
  let bytes ← IO.FS.readBinFile path
  let format ← formatOf path
  orThrow ImageError.message (format.decode bytes.toList)

/-- Adds frames to an animation, up to the first that cannot be read back or is refused. -/
def addFrames (file : IO.FS.Handle) (delay : Nat) : List String → Encoding.Gif.Encoder →
    IO (Encoding.Gif.Encoder × Except IO.Error Unit)
  | [], encoder => return (encoder, .ok ())
  | path :: rest, encoder => do
    match ← (loadFile path).toBaseIO with
    | .error e => return (encoder, .error e)
    | .ok image =>
      let added := Encoding.Gif.addFrame ⟨image, 0, 0, delay⟩ encoder
      file.write (toBytes added.written)
      match added.outcome with
      | .error e => return (added.encoder, .error (.userError e.message))
      | .ok () => addFrames file delay rest added.encoder

/-- Makes an animation of the kept frames. -/
def Workshop.assemble (w : Workshop) (basename : String) : IO Unit := do
  let path := animationPath here basename
  let file ← IO.FS.Handle.mk path .write
  let begun := Encoding.Gif.repeatForever Encoding.Gif.fresh
  file.write (toBytes begun.written)
  let (encoder, outcome) ← addFrames file w.delay w.kept begun.encoder
  file.write (toBytes (Encoding.Gif.finish encoder))
  match outcome with
  | .error e => throw e
  | .ok () => report (.created path)

def Workshop.answer (w : Workshop) : Call → IO Workshop
  | .clear => return { w with picture := w.picture.clear }
  | .polygons points lighting material =>
    return { w with picture := w.picture.draw (.polygons points lighting material) }
  | .lines points color => return { w with picture := w.picture.draw (.edges points color) }
  | .display => orThrow Error.message (.error noScreen)
  | .save path => do
    saveFile path (.of w.picture)
    return w
  | .saveFrame path => do
    let directory := Path.directoryText path
    if directory ≠ "" then IO.FS.createDirAll directory
    saveFile path (.of w.picture)
    return { w with kept := w.kept ++ [path] }
  | .assemble basename => do
    w.assemble basename
    return { w with kept := [] }

def Workshop.take (w : Workshop) : Event → IO Workshop
  | .call c => w.answer c
  | .log entry => do
    report entry
    return w

def runFile (o : Options) (path : String) : IO Unit := do
  report (.running path)
  let source ← IO.FS.readFile path
  let run := Scene.playSource path source o.frameDirectory
  let start : Workshop := ⟨.new o.size maxColor background, [], o.delay⟩
  let _ ← run.events.foldlM Workshop.take start
  orThrow Error.message run.outcome

/-- Runs scripts in order. The result is the exit code. -/
def runFiles (o : Options) : List String → IO UInt32
  | [] => return 0
  | path :: rest => do
    match ← (runFile o path).toBaseIO with
    | .ok () => runFiles o rest
    | .error e =>
      IO.eprintln s!"Error: running script '{path}': {e}"
      return 1

/-- Runs the program with the arguments of the command line. -/
def run (arguments : List String) : IO UInt32 := do
  match Options.ofArguments arguments with
  | .error e =>
    if e = .help ∨ e = .version then
      IO.println (answerText e)
      return 0
    else
      IO.eprintln (answerText e)
      IO.eprintln usage
      return 2
  | .ok o =>
    if o.scripts.isEmpty then
      report (.scriptDefaulted defaultScript)
      runFiles o [defaultScript]
    else runFiles o o.scripts

end Flipbook.CommandLine

def main (arguments : List String) : IO UInt32 :=
  Flipbook.CommandLine.run arguments

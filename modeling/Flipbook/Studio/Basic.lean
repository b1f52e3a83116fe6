import Flipbook.Replay.Run
import Flipbook.Studio.Library

/-!
# Studios

A studio holds what a real run works on: the picture, the files, and the frames kept so far. It
answers the calls of a run: it draws into the picture, saves it, and makes an animation of the
saved frames by reading them back.
-/

namespace Flipbook

open Studio

/-- The picture, the files and the frames of a run. -/
structure Studio where
  picture : Picture
  files : FileTree
  /-- The files of the kept frames, in order. -/
  kept : List String
  /-- How long each frame of an animation is shown, in milliseconds. -/
  delay : Nat
  /-- The directory of the animations. -/
  output : String
  /-- What was logged, the last entry first. -/
  logged : List LogEntry

namespace Studio

def maxColor : Nat := 255

/-- The color of an empty picture: white. -/
def background : Color := ⟨255, 255, 255⟩

/-- The working directory. -/
def here : String := "."

def openWith (size : Size) (delay : Nat) (files : FileTree) : Studio where
  picture := .new size maxColor background
  files := files
  kept := []
  delay := delay
  output := here
  logged := []

def log (s : Studio) (entry : LogEntry) : Studio :=
  { s with logged := entry :: s.logged }

variable (library : ImageLibrary)

/-! ### Saving -/

def save (s : Studio) (path : String) : Studio × Except Error Unit :=
  match library.save s.files path (.of s.picture) with
  | (files, .ok ()) => (({ s with files }).log (.saved path), .ok ())
  | (files, .error e) => ({ s with files }, .error (.image e))

/-- Saves the picture as a frame, in a directory that is made if it is missing. -/
def saveFrame (s : Studio) (path : String) : Studio × Except Error Unit :=
  match s.files.makeParents path with
  | (files, .error e) => ({ s with files }, .error (.storage e))
  | (files, .ok ()) =>
    match { s with files }.save library path with
    | (s, .ok ()) => ({ s with kept := s.kept ++ [path] }, .ok ())
    | (s, .error e) => (s, .error e)

/-! ### Assembling -/

/-- The file of an animation, in the directory of the animations. -/
def animationPath (directory basename : String) : String :=
  Path.join directory (basename ++ ".gif")

/-- Adds frames to the animation at a place, up to the first that cannot be read back or is refused.
Each is written before the next is read. -/
def addFrames (target : Location) (delay : Nat) : List String → library.Encoder → FileTree →
    FileTree × library.Encoder × Except ImageError Unit
  | [], encoder, files => (files, encoder, .ok ())
  | path :: rest, encoder, files =>
    match library.load files path with
    | .error e => (files, encoder, .error e)
    | .ok image =>
      let added := library.addFrame ⟨image, 0, 0, delay⟩ encoder
      let files := files.append target added.written
      match added.outcome with
      | .error e => (files, added.encoder, .error e)
      | .ok () => addFrames target delay rest added.encoder files

/-- Makes an animation of the kept frames. They are forgotten as soon as the first is read. -/
def assemble (s : Studio) (basename : String) : Studio × Except Error Unit :=
  let path := animationPath s.output basename
  match s.files.create path with
  | .error e => (s, .error (.storage e))
  | .ok (files, target) =>
    let begun := library.repeatForever library.fresh
    let files := files.append target begun.written
    match begun.outcome with
    | .error e =>
      ({ s with files := files.append target (library.finish begun.encoder) }, .error (.image e))
    | .ok () =>
      match addFrames library target s.delay s.kept begun.encoder files with
      | (files, encoder, outcome) =>
        let s := { s with files := files.append target (library.finish encoder), kept := [] }
        match outcome with
        | .error e => (s, .error (.image e))
        | .ok () => (s.log (.created path), .ok ())

/-! ### Running -/

def draw (s : Studio) (d : Drawing) : Studio × Except Error Unit :=
  ({ s with picture := s.picture.draw d }, .ok ())

variable (screen : Picture → Except Error Unit)

/-- Answers a call. A picture is shown on a screen, which may refuse it. -/
def answer : Call → Studio → Studio × Except Error Unit
  | .clear, s => ({ s with picture := s.picture.clear }, .ok ())
  | .polygons points lighting material, s => s.draw (.polygons points lighting material)
  | .lines points color, s => s.draw (.edges points color)
  | .display, s => (s, screen s.picture)
  | .save path, s => s.save library path
  | .saveFrame path, s => s.saveFrame library path
  | .assemble basename, s => s.assemble library basename

def host : Host Studio where
  call := answer library screen
  log entry s := s.log entry

def noScreen : Error := .display "no screen"

/-- The text of a script in the files. -/
def readScript (files : FileTree) (path : String) : Except Error String :=
  match files.read path with
  | .error e => .error (.unreadableScript path (.storage e))
  | .ok data =>
    match String.fromUTF8? ⟨data.toArray⟩ with
    | some text => .ok text
    | none => .error (.unreadableScript path .notUtf8)

/-- Runs the script in a file. The files of its frames are named in `directory`. -/
def runScript (s : Studio) (path directory : String) : Studio × Except Error Unit :=
  (host library screen).run
    (do
      let source ← Trace.ofExcept (readScript s.files path)
      Scene.playSource path source directory)
    s

end Studio

end Flipbook

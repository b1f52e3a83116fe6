import Flipbook.Proofs.Studio.Library
import Flipbook.Studio.Basic

/-!
# Assembling an animation

The file of an animation is made before the first frame is read back, and the encoder writes each
frame into it before the next is read. So whatever fails, the file holds what the encoder has written
until then, in place of what it held before (`assemble_leaves`).
-/

namespace Flipbook.Studio

variable (library : ImageLibrary) (files : FileTree) (target : String) (delay : Nat)

/-- An encoder that was handed some frames, and all that it has written. -/
inductive Encodes : List AnimationFrame → library.Encoder → List UInt8 → Prop
  | start : (library.repeatForever library.fresh).outcome = .ok () →
      Encodes [] (library.repeatForever library.fresh).encoder
        (library.repeatForever library.fresh).written
  | frame {frames encoder written} {frame : AnimationFrame} : Encodes frames encoder written →
      (library.addFrame frame encoder).outcome = .ok () →
      Encodes (frames ++ [frame]) (library.addFrame frame encoder).encoder
        (written ++ (library.addFrame frame encoder).written)

/-- The files when some bytes have been written to the animation in the file `target`. -/
def holding (written : List UInt8) : FileTree :=
  files.put (placeOf target) (.file written)

/-- An encoder was handed the images of some files. Each was read when those before it were
written. -/
inductive Assembles : List String → List AnimationFrame → library.Encoder → List UInt8 → Prop
  | start : (library.repeatForever library.fresh).outcome = .ok () →
      Assembles [] [] (library.repeatForever library.fresh).encoder
        (library.repeatForever library.fresh).written
  | frame {paths frames encoder written path image} : Assembles paths frames encoder written →
      library.load (holding files target written) path = .ok image →
      (library.addFrame ⟨image, 0, 0, delay⟩ encoder).outcome = .ok () →
      Assembles (paths ++ [path]) (frames ++ [⟨image, 0, 0, delay⟩])
        (library.addFrame ⟨image, 0, 0, delay⟩ encoder).encoder
        (written ++ (library.addFrame ⟨image, 0, 0, delay⟩ encoder).written)

/-- How the making of an animation ends, and what the encoder has written then. -/
inductive Ends (paths : List String) : Except ImageError Unit → library.Encoder → List UInt8 → Prop
  | endless {e} : (library.repeatForever library.fresh).outcome = .error e →
      Ends paths (.error e) (library.repeatForever library.fresh).encoder
        (library.repeatForever library.fresh).written
  | all {frames encoder written} : Assembles library files target delay paths frames encoder written →
      Ends paths (.ok ()) encoder written
  | unread {before path after frames encoder written e} : paths = before ++ path :: after →
      Assembles library files target delay before frames encoder written →
      library.load (holding files target written) path = .error e →
      Ends paths (.error e) encoder written
  | refused {before path after frames encoder written image e} : paths = before ++ path :: after →
      Assembles library files target delay before frames encoder written →
      library.load (holding files target written) path = .ok image →
      (library.addFrame ⟨image, 0, 0, delay⟩ encoder).outcome = .error e →
      Ends paths (.error e) (library.addFrame ⟨image, 0, 0, delay⟩ encoder).encoder
        (written ++ (library.addFrame ⟨image, 0, 0, delay⟩ encoder).written)

variable {library files target delay}
variable {earlier paths : List String} {frames : List AnimationFrame} {encoder : library.Encoder}
variable {written bytes : List UInt8} {found : Option Entry}

theorem Assembles.encodes (assembles : Assembles library files target delay paths frames encoder
    written) : Encodes library frames encoder written := by
  induction assembles with
  | start begun => exact .start begun
  | frame _ _ added ih => exact .frame ih added

theorem append_holding (finds : files.Finds target found) :
    (holding files target written).append (placeOf target) bytes =
      holding files target (written ++ bytes) :=
  FileTree.append_put finds.free

/-- From the frames that have been added on, all are added up to the first that fails. -/
theorem addFrames_ends (rest : List String) (finds : files.Finds target found)
    (assembles : Assembles library files target delay earlier frames encoder written) :
    ∃ outcome encoder' written',
      addFrames library (placeOf target) delay rest encoder (holding files target written) =
        (holding files target written', encoder', outcome) ∧
      Ends library files target delay (earlier ++ rest) outcome encoder' written' := by
  induction rest generalizing earlier frames encoder written with
  | nil =>
    rw [List.append_nil]
    exact ⟨.ok (), encoder, written, rfl, .all assembles⟩
  | cons path rest ih =>
    unfold addFrames
    cases loaded : library.load (holding files target written) path with
    | error e => exact ⟨.error e, encoder, written, rfl, .unread rfl assembles loaded⟩
    | ok image =>
      dsimp only
      -- What the encoder wrote of this frame is in the file when the next one is read.
      rw [append_holding finds]
      cases added : (library.addFrame ⟨image, 0, 0, delay⟩ encoder).outcome with
      | error e => exact ⟨.error e, _, _, rfl, .refused rfl assembles loaded added⟩
      | ok =>
        have later := ih (.frame assembles loaded added)
        rw [← List.append_cons] at later
        exact later

variable {s : Studio} {basename : String} {created : FileTree} {place : Location}

theorem assemble_of_refused {e : StorageError}
    (refused : s.files.create (animationPath s.output basename) = .error e) :
    s.assemble library basename = (s, .error (.storage e)) := by
  unfold assemble
  dsimp only
  rw [refused]

theorem assemble_ends (library : ImageLibrary) (named : animationPath s.output basename = target)
    (made : s.files.create target = .ok (created, place)) :
    ∃ outcome encoder written,
      Ends library s.files target s.delay s.kept outcome encoder written ∧
      (s.assemble library basename).2 = outcome.mapError .image ∧
      (s.assemble library basename).1.files =
        holding s.files target (written ++ library.finish encoder) := by
  obtain ⟨⟨found, finds⟩, rfl, rfl⟩ := FileTree.create_ok_iff.mp made
  have empty (bytes : List UInt8) :
      (s.files.put (placeOf target) (.file [])).append (placeOf target) bytes =
        holding s.files target bytes :=
    FileTree.append_put finds.free
  unfold assemble
  dsimp only
  rw [named, made]
  dsimp only
  rw [empty]
  cases begun : (library.repeatForever library.fresh).outcome with
  | error e =>
    dsimp only
    rw [append_holding finds]
    exact ⟨_, _, _, .endless begun, rfl, rfl⟩
  | ok =>
    have first : Assembles library s.files target s.delay [] [] _ _ := .start begun
    obtain ⟨outcome, encoder, written, added, ends⟩ := addFrames_ends s.kept finds first
    dsimp only
    rw [added]
    dsimp only
    rw [append_holding finds]
    refine ⟨outcome, encoder, written, ends, ?_⟩
    cases outcome with
    | error e => exact ⟨rfl, rfl⟩
    | ok => exact ⟨rfl, rfl⟩

/-- What an animation leaves in its file, for any library. If the file cannot be made, everything is
as it was. Otherwise the encoder is handed the frames up to the first that cannot be read back or is
refused, and the file holds just what it has written, over what it held before. No other file
changes. -/
theorem assemble_leaves (library : ImageLibrary) (s : Studio) (basename : String) :
    let target := animationPath s.output basename
    let assembled := s.assemble library basename
    (∃ e, s.files.create target = .error e ∧ assembled = (s, .error (.storage e))) ∨
    ∃ outcome encoder written,
      Ends library s.files target s.delay s.kept outcome encoder written ∧
      assembled.2 = outcome.mapError .image ∧
      assembled.1.files.read target = .ok (written ++ library.finish encoder) ∧
      ∀ path content, placeOf path ≠ placeOf target → s.files.read path = .ok content →
        assembled.1.files.read path = .ok content := by
  intro target assembled
  cases made : s.files.create target with
  | error e => exact .inl ⟨e, rfl, assemble_of_refused made⟩
  | ok created =>
    obtain ⟨outcome, encoder, written, ends, ended, left⟩ := assemble_ends library rfl made
    obtain ⟨⟨found, finds⟩, _⟩ := FileTree.create_ok_iff.mp made
    refine .inr ⟨outcome, encoder, written, ends, ended, ?_, ?_⟩
    · rw [left]
      exact FileTree.read_ok_iff.mpr (finds.put_file _)
    · intro path content apart read
      rw [left]
      have stands := FileTree.read_ok_iff.mp read
      exact FileTree.read_ok_iff.mpr (stands.put_other finds.free apart)

/-- A first frame that is too great for an animation leaves an empty file. -/
theorem great_frame_leaves_nothing {path : String} {rest : List String} {image : Image}
    (made : s.files.create (animationPath s.output basename) = .ok (created, place))
    (kept : s.kept = path :: rest) (named : (Path.ofText path).extension? = some "png")
    (sized : image.Sized) (read : created.read path = .ok (Encoding.Png.file image))
    (great : Encoding.Gif.fits image.solid = false) :
    (s.assemble plainFormats basename).2 = .error (.image .parameter) ∧
      (s.assemble plainFormats basename).1.files = created := by
  have nothing : created.append place [] = created := by
    obtain ⟨⟨found, finds⟩, rfl, rfl⟩ := FileTree.create_ok_iff.mp made
    exact FileTree.append_put finds.free
  have refused (encoder : plainFormats.Encoder) :
      plainFormats.addFrame ⟨image.solid, 0, 0, s.delay⟩ encoder = ⟨encoder, [], .error .parameter⟩ :=
    if_neg (Bool.eq_false_iff.mp great)
  have added (encoder : plainFormats.Encoder) :
      addFrames plainFormats place s.delay s.kept encoder created =
        (created, encoder, .error .parameter) := by
    rw [kept]
    unfold addFrames
    rw [plainFormats_load_png named sized read]
    dsimp only
    rw [refused]
    dsimp only
    rw [nothing]
  have begun : (plainFormats.repeatForever plainFormats.fresh).outcome = .ok () := rfl
  have unwritten : (plainFormats.repeatForever plainFormats.fresh).written = [] := rfl
  unfold assemble
  dsimp only
  rw [made]
  dsimp only
  rw [begun, unwritten, nothing]
  dsimp only
  rw [added]
  exact ⟨rfl, nothing⟩

theorem great_frame_leaves_empty_animation {size : Size} {image : Image} (sized : image.Sized)
    (great : Encoding.Gif.fits image.solid = false) :
    let files : FileTree := ⟨[(⟨false, 0, ["anim"]⟩, .directory),
      (⟨false, 0, ["t000.png", "anim"]⟩, .file (Encoding.Png.file image))]⟩
    let s : Studio := { openWith size 1 files with kept := ["anim/t000.png"] }
    let assembled := s.assemble plainFormats "t"
    assembled.2 = .error (.image .parameter) ∧
      s.files.read (animationPath s.output "t") = .error .notFound ∧
      assembled.1.files.read (animationPath s.output "t") = .ok [] := by
  intro files s assembled
  have target : animationPath s.output "t" = "./t.gif" := by
    show animationPath here "t" = _
    rfl
  have made : s.files.create (animationPath s.output "t") =
      .ok (s.files.put ⟨false, 0, ["t.gif"]⟩ (.file []), ⟨false, 0, ["t.gif"]⟩) := by
    rw [target]
    rfl
  obtain ⟨failed, left⟩ := great_frame_leaves_nothing made (by rfl) (by rfl) sized (by rfl) great
  refine ⟨failed, ?_, ?_⟩
  · rw [target]
    rfl
  · unfold assembled
    rw [left, target]
    rfl

/-- A frame that is too wide for an animation: there was no animation, and then there is an empty
file. -/
theorem wide_frame_leaves_empty_animation :
    let wide : Image := ⟨65536, 1, .replicate 65536 ⟨255, 255, 255⟩⟩
    let files : FileTree := ⟨[(⟨false, 0, ["anim"]⟩, .directory),
      (⟨false, 0, ["t000.png", "anim"]⟩, .file (Encoding.Png.file wide))]⟩
    let s : Studio := { openWith ⟨65536, 1⟩ 1 files with kept := ["anim/t000.png"] }
    let assembled := s.assemble plainFormats "t"
    assembled.2 = .error (.image .parameter) ∧
      s.files.read (animationPath s.output "t") = .error .notFound ∧
      assembled.1.files.read (animationPath s.output "t") = .ok [] := by
  intro wide
  have sized : wide.Sized := List.length_replicate.trans (by decide)
  exact great_frame_leaves_empty_animation sized (by rfl)

end Flipbook.Studio

import Flipbook.Proofs.Studio.Assembling

/-!
# Kept frames

A studio keeps frames as images in files (`Keeps`). A call that does not save over them leaves them
as they are, and an encoder is handed just these images, in their order.
-/

namespace Flipbook.Studio

variable {library : ImageLibrary} {files : FileTree} {path target basename : String} {delay : Nat}
variable {frames : List (String × Image)} {screen : Picture → Except Error Unit}
variable {start s s' : Studio} {c : Call}

/-- The kept frames by their files, in order, with the images in them. The rest of the settings is
that of the studio at the start. -/
structure Keeps (library : ImageLibrary) (start : Studio) (frames : List (String × Image))
    (s : Studio) : Prop where
  delay : s.delay = start.delay
  output : s.output = start.output
  kept : s.kept = frames.map Prod.fst
  shows : ∀ frame ∈ frames, library.Shows s.files frame.1 frame.2

/-- A call that keeps no frame, assembles none, and saves nothing at their places. -/
def Spares (frames : List (String × Image)) : Call → Prop
  | .save path => ∀ frame ∈ frames, placeOf frame.1 ≠ placeOf path
  | .saveFrame _ | .assemble _ => False
  | _ => True

/-- The frame of an animation that shows an image. -/
def Image.shown (image : Image) (delay : Nat) : AnimationFrame :=
  ⟨image.solid, 0, 0, delay⟩

theorem Image.shown_of (p : Picture) (delay : Nat) :
    (Image.of p).shown delay =
      { image :=
          { width := p.size.width.toUInt32
            height := p.size.height.toUInt32
            pixels := p.pixels.toList.map fun pixel =>
              ⟨pixel.color.red, pixel.color.green, pixel.color.blue, 255⟩ }
        left := 0
        top := 0
        delay := delay } := by
  unfold Image.shown Image.of Image.solid Picture.colors
  dsimp only
  rw [List.map_map]
  rfl

/-- What is read back while an animation is written are the images that were saved. -/
theorem Assembles.shown {paths : List String} {shown : List AnimationFrame}
    {encoder : library.Encoder} {written : List UInt8} {found : Option Entry}
    (assembles : Assembles library files target delay paths shown encoder written)
    (finds : files.Finds target found) (named : paths = frames.map Prod.fst)
    (shows : ∀ frame ∈ frames, library.Shows files frame.1 frame.2)
    (apart : ∀ frame ∈ frames, placeOf frame.1 ≠ placeOf target) :
    shown = frames.map fun frame => frame.2.shown delay := by
  induction assembles generalizing frames with
  | start _ =>
    rw [List.map_eq_nil_iff.mp named.symm]
    rfl
  | @frame paths shown encoder written path read _ loaded _ ih =>
    obtain ⟨before, last, rfl, rfl, single⟩ := List.map_eq_append_iff.mp named.symm
    obtain ⟨⟨path, image⟩, rfl, rfl⟩ := List.map_eq_singleton_iff.mp single
    simp only [List.forall_mem_append, List.forall_mem_singleton] at shows apart
    have earlier := ih rfl shows.1 apart.1
    obtain ⟨content, stands, images⟩ := shows.2
    -- The animation is at a place of its own, so the frame is still the one that was saved.
    have stays : (holding files target written).read path = .ok content :=
      FileTree.read_ok_iff.mpr
        ((FileTree.read_ok_iff.mp stands).put_other finds.free apart.2)
    rw [earlier, List.map_append, images _ _ stays loaded]
    rfl

theorem host_log (entry : LogEntry) : (host library screen).log entry s = s.log entry := rfl

theorem host_saveFrame (path : String) :
    (host library screen).call (.saveFrame path) s = s.saveFrame library path := by
  simp only [host, answer]

theorem host_assemble (basename : String) :
    (host library screen).call (.assemble basename) s = s.assemble library basename := by
  simp only [host, answer]

namespace Keeps

theorem log (keeps : Keeps library start frames s) (entry : LogEntry) :
    Keeps library start frames (s.log entry) :=
  ⟨keeps.delay, keeps.output, keeps.kept, keeps.shows⟩

theorem save (keeps : Keeps library start frames s) (sound : library.Sound)
    (apart : ∀ frame ∈ frames, placeOf frame.1 ≠ placeOf path) :
    Keeps library start frames (s.save library path).1 := by
  have shows : ∀ frame ∈ frames,
      library.Shows (library.save s.files path (.of s.picture)).1 frame.1 frame.2 :=
    fun frame member => (keeps.shows frame member).of_read fun content read =>
      sound.own_file read (apart frame member)
  unfold Studio.save
  split
  · next saved =>
    rw [saved] at shows
    exact ⟨keeps.delay, keeps.output, keeps.kept, shows⟩
  · next saved =>
    rw [saved] at shows
    exact ⟨keeps.delay, keeps.output, keeps.kept, shows⟩

theorem call (keeps : Keeps library start frames s) (sound : library.Sound)
    (spares : Spares frames c) : Keeps library start frames ((host library screen).call c s).1 := by
  cases c with
  | save path => exact keeps.save sound spares
  | saveFrame | assemble => exact absurd spares id
  | _ => exact ⟨keeps.delay, keeps.output, keeps.kept, keeps.shows⟩

theorem shows_of_save (sound : library.Sound) (named : (Path.ofText path).extension? = some "png")
    (saved : s.save library path = (s', .ok ())) : library.Shows s'.files path (.of s.picture) := by
  unfold Studio.save at saved
  split at saved
  · next stored =>
    cases saved
    exact sound.png_shows named stored
  · cases saved

theorem saveFrame (keeps : Keeps library start frames s) (sound : library.Sound)
    (named : (Path.ofText path).extension? = some "png")
    (apart : ∀ frame ∈ frames, placeOf frame.1 ≠ placeOf path)
    (saved : s.saveFrame library path = (s', .ok ())) :
    Keeps library start (frames ++ [(path, .of s.picture)]) s' := by
  unfold Studio.saveFrame at saved
  split at saved
  · cases saved
  · next files made =>
    -- Making the directory of the new frame and saving it keep the earlier ones.
    have outside : Keeps library start frames { s with files } := by
      refine ⟨keeps.delay, keeps.output, keeps.kept, fun frame member => ?_⟩
      refine (keeps.shows frame member).of_read fun content read => ?_
      have same : (s.files.makeParents path).1.read frame.1 = .ok content :=
        FileTree.read_makeParents read
      rw [made] at same
      exact same
    have earlier := outside.save sound apart
    split at saved
    · next result stored =>
      cases saved
      rw [stored] at earlier
      have kept : result.kept = frames.map Prod.fst := earlier.kept
      have here := shows_of_save sound named stored
      refine ⟨earlier.delay, earlier.output, ?_, ?_⟩
      · rw [kept, List.map_append, List.map_singleton]
      · rw [List.forall_mem_append, List.forall_mem_singleton]
        exact ⟨earlier.shows, here⟩
    · cases saved

/-- The encoder of an animation is handed the images in the kept files, in their order. -/
theorem assemble (keeps : Keeps library start frames s)
    (apart : ∀ frame ∈ frames, placeOf frame.1 ≠ placeOf (animationPath start.output basename))
    (assembled : s.assemble library basename = (s', .ok ())) :
    ∃ encoder written,
      Encodes library (frames.map fun frame => frame.2.shown start.delay) encoder written ∧
      s'.files.read (animationPath start.output basename) =
        .ok (written ++ library.finish encoder) := by
  rw [← keeps.output] at apart ⊢
  cases made : s.files.create (animationPath s.output basename) with
  | error e =>
    rw [assemble_of_refused made] at assembled
    cases assembled
  | ok created =>
    obtain ⟨outcome, encoder, written, ends, ended, left⟩ := assemble_ends library rfl made
    obtain ⟨⟨found, finds⟩, _⟩ := FileTree.create_ok_iff.mp made
    rw [assembled] at ended left
    cases ends with
    | all assembles =>
      have same := assembles.shown finds keeps.kept keeps.shows apart
      rw [← keeps.delay, ← same]
      refine ⟨encoder, written, assembles.encodes, ?_⟩
      rw [left]
      exact FileTree.read_ok_iff.mpr (finds.put_file _)
    | endless | unread | refused => cases ended

end Keeps

end Flipbook.Studio

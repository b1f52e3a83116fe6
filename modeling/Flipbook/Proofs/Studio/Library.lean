import Flipbook.Proofs.Studio.Files
import Flipbook.Proofs.Studio.Png
import Flipbook.Studio.Encoding

/-!
# What a library does with files

The formats of a library are its own affair. What is relied on are primitive facts about single files:
a save writes no other file, and a PNG file that is read again shows the image that was saved. The
plain formats do both (`plainFormats_sound`).
-/

namespace Flipbook.Studio

variable {files saved : FileTree} {path other : String} {image : Image} {content bytes : List UInt8}

/-- For as long as its bytes stay, a file is read as an image or not at all. -/
def ImageLibrary.Shows (library : ImageLibrary) (files : FileTree) (path : String) (image : Image) :
    Prop :=
  ∃ content, files.read path = .ok content ∧ ∀ later read, later.read path = .ok content →
    library.load later path = .ok read → read = image.solid

/-- A library saves to the named file only, and a PNG file that it has saved shows the image. Both
saving and reading may fail. -/
structure ImageLibrary.Sound (library : ImageLibrary) : Prop where
  own_file : ∀ {files path other image content}, files.read other = .ok content →
    placeOf other ≠ placeOf path → (library.save files path image).1.read other = .ok content
  png_shows : ∀ {files saved path image}, (Path.ofText path).extension? = some "png" →
    library.save files path image = (saved, .ok ()) → library.Shows saved path image

theorem ImageLibrary.Shows.of_read {library : ImageLibrary} {later : FileTree}
    (shows : library.Shows files path image)
    (stays : ∀ content, files.read path = .ok content → later.read path = .ok content) :
    library.Shows later path image := by
  obtain ⟨content, read, images⟩ := shows
  exact ⟨content, stays content read, images⟩

/-! ### Plain formats -/

theorem ofPath?_png {path : Path} (named : path.extension? = some "png") :
    ImageFormat.ofPath? path = some .png := by
  have known : imageExtensions.lookup "png".toLower = some .png := by decide +kernel
  unfold ImageFormat.ofPath?
  rw [named]
  exact known

theorem encode_png (encoded : ImageFormat.png.encode image = .ok bytes) :
    image.Sized ∧ bytes = Encoding.Png.file image := by
  unfold ImageFormat.encode at encoded
  split at encoded
  · cases encoded
  · next sized =>
    dsimp only at encoded
    split at encoded
    · cases encoded
    · cases encoded
      exact ⟨Decidable.not_not.mp sized, rfl⟩

theorem plainFormats_load_png (named : (Path.ofText path).extension? = some "png")
    (sized : image.Sized) (read : files.read path = .ok (Encoding.Png.file image)) :
    plainFormats.load files path = .ok image.solid := by
  unfold plainFormats
  dsimp only
  rw [read, ofPath?_png named]
  dsimp only [ImageFormat.decode]
  rw [Encoding.Png.read_file sized]
  rfl

/-- A save creates the named file and, if the format takes the image, writes its bytes. -/
theorem plainFormats_save (files : FileTree) (path : String) (image : Image) :
    (∃ e, plainFormats.save files path image = (files, .error e)) ∨
    ∃ created place, files.create path = .ok (created, place) ∧
      ((∃ e, plainFormats.save files path image = (created, .error e)) ∨
        ∃ format bytes, ImageFormat.ofPath? (.ofText path) = some format ∧
          format.encode image = .ok bytes ∧
          plainFormats.save files path image = (created.append place bytes, .ok ())) := by
  unfold plainFormats
  dsimp only
  split
  · exact .inl ⟨_, rfl⟩
  · next format known =>
    split
    · exact .inl ⟨_, rfl⟩
    · next created place made =>
      refine .inr ⟨created, place, made, ?_⟩
      split
      · next e _ => exact .inl ⟨e, rfl⟩
      · next bytes encoded => exact .inr ⟨format, bytes, known, encoded, rfl⟩

theorem plainFormats_save_ok (done : plainFormats.save files path image = (saved, .ok ())) :
    ∃ created place format bytes, files.create path = .ok (created, place) ∧
      ImageFormat.ofPath? (.ofText path) = some format ∧ format.encode image = .ok bytes ∧
      saved = created.append place bytes := by
  rcases plainFormats_save files path image with
    ⟨e, failed⟩ | ⟨created, place, made, ⟨e, failed⟩ | ⟨format, bytes, known, encoded, result⟩⟩
  · cases failed.symm.trans done
  · cases failed.symm.trans done
  · cases result.symm.trans done
    exact ⟨created, place, format, bytes, made, known, encoded, rfl⟩

theorem plainFormats_sound : plainFormats.Sound where
  own_file {files path other image content} read apart := by
    rcases plainFormats_save files path image with ⟨e, result⟩ | ⟨created, place, made, left⟩
    · rw [result]
      exact read
    · obtain ⟨stays, stays'⟩ := FileTree.read_created_other made read apart
      rcases left with ⟨e, result⟩ | ⟨_, bytes, _, _, result⟩
      · rw [result]
        exact stays
      · rw [result]
        exact stays' bytes
  png_shows {files saved path image} named done := by
    obtain ⟨created, place, format, bytes, made, known, encoded, rfl⟩ := plainFormats_save_ok done
    cases (ofPath?_png named).symm.trans known
    obtain ⟨sized, rfl⟩ := encode_png encoded
    refine ⟨_, FileTree.read_created made _, fun later read stays loaded => ?_⟩
    rw [plainFormats_load_png named sized stays] at loaded
    exact (Except.ok.inj loaded).symm

end Flipbook.Studio

import Flipbook.Proofs.Run.Pictures
import Flipbook.Proofs.Studio.Keeping
import Flipbook.Proofs.Studio.Names

/-!
# The animation of a run

The frames of a run go through files on their way into the animation. Each is kept at a place of its
own, and only a `save` of the script could write there. So without such a `save` the encoder is handed
the pictures with which the frames ended (`animation_shows_pictures`).
-/

namespace Flipbook

namespace Frame

variable {commands : List Command} {symbols : SymbolTable} {knobs : KnobValues} {path : String}

theorem save_of_callOf? {setting : Setting} {s : State} {c : Command}
    (made : callOf? setting s c = some (.save path)) : c = .save path := by
  cases c with
  | save other =>
    cases made
    rfl
  | solid shape material system =>
    rw [callOf?] at made
    split at made
    · cases made
    · cases made
  | _ => cases made

theorem save_mem_of_ownCalls {n : Nat} (own : .save path ∈ ownCalls commands symbols knobs n) :
    .save path ∈ commands := by
  obtain ⟨i, _, made⟩ := List.mem_filterMap.mp own
  obtain ⟨s, _, made⟩ := Option.bind_eq_some_iff.mp made
  obtain ⟨c, stands, made⟩ := Option.bind_eq_some_iff.mp made
  rw [← save_of_callOf? made]
  exact List.mem_of_getElem? stands

end Frame

namespace Scene

open Studio

variable {scene : Scene} {policy : FramePolicy} {directory : String} {frames : List KnobValues}
variable {f : Nat} {knobs knobs' : KnobValues} {images : List (String × Image)}
variable {library : ImageLibrary} {screen : Picture → Except Error Unit}
variable {studio begun ended finished : Studio}

theorem spares_replay (completes : scene.Completes knobs)
    (apart : ∀ path, .save path ∈ scene.commands → ∀ frame ∈ images,
      placeOf frame.1 ≠ placeOf path) :
    ∀ c ∈ (Frame.replay scene.commands scene.symbols knobs).calls, Spares images c := by
  rw [Frame.calls_replay_of_ok completes, List.forall_mem_cons]
  refine ⟨trivial, fun c own => ?_⟩
  cases c with
  | save path => exact apart path (Frame.save_mem_of_ownCalls own)
  | saveFrame path => cases (Frame.ownCalls_own own).1
  | assemble name => exact (Frame.ownCalls_own own).2 name rfl
  | _ => trivial

theorem keeps_run {α : Type} {r : Replay α} (sound : library.Sound)
    (keeps : Keeps library studio images begun) (spares : ∀ c ∈ r.calls, Spares images c) :
    Keeps library studio images ((host library screen).run r begun).1 := by
  let kept (s : Studio) : Prop := Keeps library studio images s
  have call : ∀ c ∈ r.calls, ∀ s, kept s → kept ((host library screen).call c s).1 :=
    fun c member s keeps => Keeps.call keeps sound (spares c member)
  have log : ∀ entry s, kept s → kept ((host library screen).log entry s) :=
    fun entry s keeps => Keeps.log keeps entry
  exact Host.run_keeps_of_calls r call log keeps

theorem keeps_of_silent {α : Type} {r : Replay α} {a : α} (sound : library.Sound)
    (keeps : Keeps library studio images begun) (silent : r.calls = [])
    (ran : (host library screen).run r begun = (ended, .ok a)) :
    Keeps library studio images ended := by
  have spares : ∀ c ∈ r.calls, Spares images c := by
    rw [silent]
    exact nofun
  have kept : Keeps library studio images ((host library screen).run r begun).1 :=
    keeps_run sound keeps spares
  rw [ran] at kept
  exact kept

/-- What a run does after the replay of a frame. -/
def keep (policy : FramePolicy) (directory : String) (f : Nat) : Replay Unit := do
  Replay.log (.savingFrame (policy.framePath directory f))
  Replay.call (.saveFrame (policy.framePath directory f))

/-- The image of the picture at the end of a frame, which starts with the studio `begun`. -/
def lastImage (scene : Scene) (library : ImageLibrary) (screen : Picture → Except Error Unit)
    (knobs : KnobValues) (begun : Studio) : Image :=
  .of ((host library screen).run (Frame.replay scene.commands scene.symbols knobs) begun).1.picture

/-- One more frame is kept: the picture at the end of its replay. -/
theorem keeps_frame (sound : library.Sound) (keeps : Keeps library studio images begun)
    (saves : ∀ path, .save path ∈ scene.commands → ∀ frame ∈ images,
      placeOf frame.1 ≠ placeOf path)
    (apart : ∀ frame ∈ images, placeOf frame.1 ≠ placeOf (policy.framePath directory f))
    (ran : (host library screen).run (do
      Frame.replay scene.commands scene.symbols knobs
      keep policy directory f) begun = (ended, .ok ())) :
    Keeps library studio (images ++
      [(policy.framePath directory f, scene.lastImage library screen knobs begun)]) ended := by
  obtain ⟨drawn, ⟨⟩, replayed, kept⟩ := Host.run_bind_ok ran
  have completes : scene.Completes knobs := Host.outcome_of_run (congrArg Prod.snd replayed)
  have still : Keeps library studio images drawn := by
    have spared : Keeps library studio images
        ((host library screen).run (Frame.replay scene.commands scene.symbols knobs) begun).1 :=
      keeps_run sound keeps (spares_replay completes saves)
    rw [replayed] at spared
    exact spared
  obtain ⟨_, _, logged, saved⟩ := Host.run_bind_ok kept
  cases logged
  rw [Host.run_call, host_log, host_saveFrame] at saved
  unfold lastImage
  rw [replayed]
  exact (still.log _).saveFrame sound (policy.framePath_extension directory f) apart saved

/-! ### All frames -/

theorem calls_playUpTo_zero (resolves : scene.Resolves policy frames) :
    (scene.playUpTo policy directory frames 0 knobs).calls = [] := by
  have asked : (Replay.logging scene.policy).outcome = .ok policy :=
    (policy_outcome scene).trans resolves.policed
  unfold playUpTo
  rw [Replay.calls_of_ok asked, Replay.calls_logging, List.take_zero, playFrames]
  cases policy.isAnimated with
  | false => rfl
  | true => exact calls_logKnobs knobs

theorem playUpTo_succ (animated : policy.isAnimated = true) (turned : frames[f]? = some knobs) :
    scene.playUpTo policy directory frames (f + 1) knobs' = (do
      scene.playUpTo policy directory frames f knobs
      (do
        Frame.replay scene.commands scene.symbols knobs
        keep policy directory f)
      logKnobs knobs') := by
  have last : (frames.take (f + 1))[f]? = some knobs := by
    rw [List.getElem?_take_of_lt (Nat.lt_succ_self f)]
    exact turned
  have nothing : (frames.take (f + 1)).drop (f + 1) = [] := by
    simp
  unfold playUpTo keep
  rw [playFrames_split last, nothing, List.take_take, Nat.min_eq_left (Nat.le_succ f), Nat.zero_add]
  simp [playFrame, playFrames, animated]

theorem play_last (resolves : scene.Resolves policy frames) (animated : policy.isAnimated = true)
    (turned : frames[f]? = some knobs) (last : frames.length = f + 1) :
    scene.play directory = (do
      scene.playUpTo policy directory frames f knobs
      (do
        Frame.replay scene.commands scene.symbols knobs
        keep policy directory f)
      Replay.call (.assemble policy.basename)
      return policy) := by
  have nothing : frames.drop (f + 1) = [] := List.drop_eq_nil_iff.mpr (Nat.le_of_eq last)
  rw [play_split resolves turned]
  unfold playFrom keep
  rw [nothing]
  simp [playFrames, animated]

/-- A studio has kept the first frames of a run, each with the picture at its end. -/
structure HasKept (scene : Scene) (policy : FramePolicy) (frames : List KnobValues)
    (directory : String) (library : ImageLibrary) (screen : Picture → Except Error Unit)
    (studio : Studio) (images : List (String × Image)) (s : Studio) : Prop where
  keeps : Keeps library studio images s
  pictures : ∀ (f : Nat) (frame : String × Image), images[f]? = some frame →
    ∃ knobs begun,
      scene.ComesTo policy frames directory (host library screen) studio f knobs begun ∧
        frame = (policy.framePath directory f, scene.lastImage library screen knobs begun)

namespace HasKept

theorem path {s : Studio} (kept : HasKept scene policy frames directory library screen studio images s)
    {frame : String × Image} (member : frame ∈ images) :
    ∃ g < images.length, frame.1 = policy.framePath directory g := by
  obtain ⟨g, inside, here⟩ := List.getElem_of_mem member
  obtain ⟨knobs, begun, _, rfl⟩ := kept.pictures g frame (here ▸ List.getElem?_eq_getElem inside)
  exact ⟨g, inside, rfl⟩

theorem frame (sound : library.Sound)
    (kept : HasKept scene policy frames directory library screen studio images begun)
    (comes : scene.ComesTo policy frames directory (host library screen) studio images.length knobs
      begun)
    (saves : ∀ path, .save path ∈ scene.commands → ∀ f < frames.length,
      placeOf (policy.framePath directory f) ≠ placeOf path)
    (ran : (host library screen).run (do
      Frame.replay scene.commands scene.symbols knobs
      keep policy directory images.length) begun = (ended, .ok ())) :
    HasKept scene policy frames directory library screen studio
      (images ++ [(policy.framePath directory images.length,
        scene.lastImage library screen knobs begun)]) ended := by
  have inside := (List.getElem?_eq_some_iff.mp comes.turned).1
  constructor
  · apply keeps_frame sound kept.keeps _ _ ran
    · intro path given frame member
      obtain ⟨g, earlier, named⟩ := kept.path member
      rw [named]
      exact saves path given g (Nat.lt_trans earlier inside)
    · intro frame member same
      obtain ⟨g, earlier, named⟩ := kept.path member
      rw [named] at same
      exact Nat.ne_of_lt earlier (FramePolicy.framePath_place_injective same)
  · intro f frame here
    rcases InOrder.getElem?_concat_eq_some.mp here with here | ⟨rfl, rfl⟩
    · exact kept.pictures f frame here
    · exact ⟨knobs, begun, comes, rfl⟩

end HasKept

/-- A run that comes to a frame has kept those before it. -/
theorem hasKept_of_comesTo (sound : library.Sound) (resolves : scene.Resolves policy frames)
    (animated : policy.isAnimated = true) (fresh : studio.kept = [])
    (saves : ∀ path, .save path ∈ scene.commands → ∀ f < frames.length,
      placeOf (policy.framePath directory f) ≠ placeOf path)
    (comes : scene.ComesTo policy frames directory (host library screen) studio f knobs begun) :
    ∃ images, images.length = f ∧
      HasKept scene policy frames directory library screen studio images begun := by
  induction f generalizing knobs begun with
  | zero =>
    have start : Keeps library studio [] studio := ⟨rfl, rfl, fresh, nofun⟩
    have keeps : Keeps library studio [] begun :=
      keeps_of_silent sound start (calls_playUpTo_zero resolves) comes.reached
    exact ⟨[], rfl, keeps, nofun⟩
  | succ f ih =>
    have inside := (List.getElem?_eq_some_iff.mp comes.turned).1
    have turned : frames[f]? = some frames[f] := List.getElem?_eq_getElem (Nat.lt_of_succ_lt inside)
    have reached := comes.reached
    rw [playUpTo_succ animated turned] at reached
    -- The run came to frame `f`, replayed it, kept it, and logged the knobs of the next one.
    obtain ⟨before, ⟨⟩, first, reached⟩ := Host.run_bind_ok reached
    obtain ⟨ended, ⟨⟩, second, logged⟩ := Host.run_bind_ok reached
    obtain ⟨images, rfl, kept⟩ := ih ⟨turned, first⟩
    have next := kept.frame sound ⟨turned, first⟩ saves second
    have keeps := keeps_of_silent sound next.keeps (calls_logKnobs knobs) logged
    exact ⟨_, by simp, keeps, next.pictures⟩

theorem resolves_of_played (played : (scene.play directory).outcome = .ok policy) :
    ∃ frames, scene.Resolves policy frames := by
  rcases scene.unresolved_or_resolves with ⟨e, unresolved⟩ | ⟨policy', frames, resolves⟩
  · rw [(play_unresolved directory unresolved).2] at played
    cases played
  · have planned := play_planned directory resolves
    rw [played] at planned
    generalize (scene.play directory).calls = calls at planned
    cases planned
    exact ⟨frames, resolves⟩

theorem assembled_of_played (sound : library.Sound) (resolves : scene.Resolves policy frames)
    (animated : policy.isAnimated = true) (fresh : studio.kept = []) (nonempty : frames ≠ [])
    (saves : ∀ path, .save path ∈ scene.commands → ∀ f < frames.length,
      placeOf (policy.framePath directory f) ≠ placeOf path)
    (ran : (host library screen).run (scene.play directory) studio = (finished, .ok policy)) :
    ∃ images ended, images.length = frames.length ∧
      HasKept scene policy frames directory library screen studio images ended ∧
      ended.assemble library policy.basename = (finished, .ok ()) := by
  have positive := List.length_pos_iff.mpr nonempty
  obtain ⟨f, last⟩ : ∃ f, frames.length = f + 1 := ⟨frames.length - 1, by omega⟩
  have turned : frames[f]? = some frames[f] := List.getElem?_eq_getElem (by omega)
  rw [play_last resolves animated turned last] at ran
  obtain ⟨begun, ⟨⟩, first, ran⟩ := Host.run_bind_ok ran
  obtain ⟨ended, ⟨⟩, second, ran⟩ := Host.run_bind_ok ran
  obtain ⟨_, ⟨⟩, assembled, returned⟩ := Host.run_bind_ok ran
  cases returned
  rw [Host.run_call, host_assemble] at assembled
  obtain ⟨images, rfl, kept⟩ := hasKept_of_comesTo sound resolves animated fresh saves
    ⟨turned, first⟩
  refine ⟨_, ended, ?_, kept.frame sound ⟨turned, first⟩ saves second, assembled⟩
  rw [List.length_append]
  exact last.symm

/-- A run of several frames that succeeds hands the encoder just its frames, in their order, and
leaves what the encoder has written of them. Each frame shows, pixel by pixel, the picture with which
its replay ended. Only a `save` to the place of a frame is excluded. -/
theorem animation_shows_pictures (sound : library.Sound)
    (ran : (host library screen).run (scene.play directory) studio = (finished, .ok policy))
    (animated : 1 < policy.frames) (fresh : studio.kept = [])
    (saves : ∀ path, .save path ∈ scene.commands → ∀ f < policy.frames,
      placeOf (policy.framePath directory f) ≠ placeOf path) :
    ∃ frames shown encoder written,
      scene.Resolves policy frames ∧ frames.length = policy.frames ∧
      finished.files.read (animationPath studio.output policy.basename) =
        .ok (written ++ library.finish encoder) ∧
      Encodes library shown encoder written ∧ shown.length = policy.frames ∧
      ∀ f < policy.frames, ∃ knobs begun,
        scene.ComesTo policy frames directory (host library screen) studio f knobs begun ∧
        let picture := ((host library screen).run
          (Frame.replay scene.commands scene.symbols knobs) begun).1.picture
        shown[f]? = some
          { image :=
              { width := picture.size.width.toUInt32
                height := picture.size.height.toUInt32
                pixels := picture.pixels.toList.map fun pixel =>
                  ⟨pixel.color.red, pixel.color.green, pixel.color.blue, 255⟩ }
            left := 0
            top := 0
            delay := studio.delay } := by
  obtain ⟨frames, resolves⟩ := resolves_of_played (Host.outcome_of_run (congrArg Prod.snd ran))
  have length : frames.length = policy.frames := Timeline.ofCommands_length resolves.resolved
  have several : policy.isAnimated = true := decide_eq_true animated
  rw [← length] at saves animated
  have nonempty : frames ≠ [] := List.length_pos_iff.mp (by omega)
  obtain ⟨images, ended, count, kept, assembled⟩ :=
    assembled_of_played sound resolves several fresh nonempty saves ran
  have apart : ∀ frame ∈ images,
      placeOf frame.1 ≠ placeOf (animationPath studio.output policy.basename) := by
    intro frame member
    obtain ⟨g, _, named⟩ := kept.path member
    rw [named]
    exact FramePolicy.framePath_place_ne_animation studio.output policy.basename
  obtain ⟨encoder, written, encodes, read⟩ := kept.keeps.assemble apart assembled
  refine ⟨frames, _, encoder, written, resolves, length, read, encodes, ?_, ?_⟩
  · rw [List.length_map, count, length]
  · intro f inside
    have here : images[f]? = some images[f] := List.getElem?_eq_getElem (by omega)
    obtain ⟨knobs, begun, comes, same⟩ := kept.pictures f _ here
    refine ⟨knobs, begun, comes, ?_⟩
    rw [List.getElem?_map, here, same]
    exact congrArg some (Image.shown_of _ _)

/-- A point that moves from the left pixel to the right one. The script shows and saves each frame. -/
theorem moving_point_is_animated :
    let scene : Scene := ⟨[.frames 2, .basename "t", .vary "k" ⟨0, 1⟩ 0 1 none,
      .transform (.move ⟨1, 0, 0⟩) (some "k"), .line none ⟨0, 0, 0⟩ none ⟨0, 0, 0⟩ none,
      .display, .save "s.png"], .ofList [("k", .knob 0)]⟩
    let host := host plainFormats fun _ => .ok ()
    let studio := openWith ⟨2, 1⟩ 10 ⟨[]⟩
    ∃ finished shown encoder written,
      host.run (scene.play "anim") studio = (finished, .ok ⟨"t", 2, false⟩) ∧
      finished.files.read (animationPath studio.output "t") =
        .ok (written ++ plainFormats.finish encoder) ∧
      Encodes plainFormats shown encoder written ∧ shown.length = 2 := by
  intro scene host studio
  have played : (host.run (scene.play "anim") studio).2 = .ok ⟨"t", 2, false⟩ := by decide +kernel
  have saves : ∀ path, .save path ∈ scene.commands → ∀ f < 2,
      placeOf (FramePolicy.framePath ⟨"t", 2, false⟩ "anim" f) ≠ placeOf path := by
    intro path given
    obtain rfl : path = "s.png" := by simpa [scene] using given
    decide +kernel
  obtain ⟨frames, shown, encoder, written, _, _, read, encodes, count, _⟩ :=
    animation_shows_pictures plainFormats_sound (Prod.ext rfl played) (by decide) rfl saves
  exact ⟨_, shown, encoder, written, Prod.ext rfl played, read, encodes, count⟩

end Scene

end Flipbook

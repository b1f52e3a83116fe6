import Flipbook.Proofs.Frame.Calls
import Flipbook.Proofs.Run.Policy
import Flipbook.Proofs.Timeline.LastWriter
import Mathlib.Data.List.Nodup

/-!
# The protocol of a run

The calls of a run, read off the scene (`Planned`): frame after frame it clears the canvas, makes
the calls of the commands and, in an animation, keeps the frame, and at the end it assembles the kept
frames. A host hears these calls up to the first one that it refuses, so it is asked to assemble only
when it has kept every frame (`play_protocol`).
-/

namespace Flipbook.Scene

variable {scene : Scene} {policy : FramePolicy} {directory : String} {frames : List KnobValues}
variable {f first : Nat} {knobs : KnobValues} {calls : List Call}
variable {outcome : Except Error FramePolicy} {e : Error}

/-- The frame policy of a scene and the knobs of its frames. -/
structure Resolves (scene : Scene) (policy : FramePolicy) (frames : List KnobValues) : Prop where
  policed : FramePolicy.ofCommands scene.commands = .ok policy
  resolved : Timeline.ofCommands scene.commands policy.frames
    (SymbolTable.knobValues scene.symbols) = .ok frames

/-- A scene without a frame policy, or with ranges or lists that its frames do not have. -/
def Unresolved (scene : Scene) (e : Error) : Prop :=
  FramePolicy.ofCommands scene.commands = .error e ∨
    ∃ policy, FramePolicy.ofCommands scene.commands = .ok policy ∧
      Timeline.ofCommands scene.commands policy.frames (SymbolTable.knobValues scene.symbols) =
        .error e

theorem unresolved_or_resolves (scene : Scene) :
    (∃ e, scene.Unresolved e) ∨ ∃ policy frames, scene.Resolves policy frames := by
  cases policed : FramePolicy.ofCommands scene.commands with
  | error e => exact .inl ⟨e, .inl policed⟩
  | ok policy =>
    cases resolved : Timeline.ofCommands scene.commands policy.frames
      (SymbolTable.knobValues scene.symbols) with
    | error e => exact .inl ⟨e, .inr ⟨policy, policed, resolved⟩⟩
    | ok frames => exact .inr ⟨policy, frames, policed, resolved⟩

/-- The calls of a frame that is replayed to its end. -/
def frameCalls (scene : Scene) (policy : FramePolicy) (directory : String) (f : Nat)
    (knobs : KnobValues) : List Call :=
  .clear :: Frame.ownCalls scene.commands scene.symbols knobs scene.commands.length ++
    if policy.isAnimated then [.saveFrame (policy.framePath directory f)] else []

/-- The calls of frames that are replayed to their ends, numbered from `first`. -/
def framesCalls (scene : Scene) (policy : FramePolicy) (directory : String) (first : Nat)
    (frames : List KnobValues) : List Call :=
  (frames.zipIdx first).flatMap fun frame => scene.frameCalls policy directory frame.2 frame.1

/-- The calls of a run that no call ends, and its outcome. -/
inductive Planned (scene : Scene) (policy : FramePolicy) (directory : String)
    (frames : List KnobValues) : List Call → Except Error FramePolicy → Prop
  | complete (completes : ∀ knobs ∈ frames, scene.Completes knobs) :
      Planned scene policy directory frames
        (scene.framesCalls policy directory 0 frames ++
          if policy.isAnimated then [.assemble policy.basename] else []) (.ok policy)
  | failing {f i c e knobs} (turned : frames[f]? = some knobs) (fails : scene.FailsAt f i c e) :
      Planned scene policy directory frames
        (scene.framesCalls policy directory 0 (frames.take f) ++
          .clear :: Frame.ownCalls scene.commands scene.symbols knobs i) (.error e)

/-! ### Calls of frames -/

theorem calls_logKnobs (knobs : KnobValues) : (logKnobs knobs).calls = [] := by
  rw [Replay.calls, logKnobs, List.filterMap_map, List.filterMap_eq_nil_iff]
  intro entry _
  rfl

theorem calls_playFrame_of_ok (completes : scene.Completes knobs) :
    (scene.playFrame policy directory f knobs).calls = scene.frameCalls policy directory f knobs := by
  have logged : (logKnobs knobs).outcome = .ok () := rfl
  have replayed := Frame.calls_replay_of_ok completes
  rw [playFrame, frameCalls]
  cases policy.isAnimated with
  | false =>
    rw [if_neg Bool.false_ne_true]
    dsimp only
    rw [Replay.calls_of_ok completes, replayed]
    rfl
  | true =>
    rw [if_pos rfl, Replay.calls_of_ok logged, calls_logKnobs, Replay.calls_of_ok completes,
      replayed]
    rfl

theorem calls_playFrame_of_error
    (fails : (Frame.replay scene.commands scene.symbols knobs).outcome = .error e) :
    (scene.playFrame policy directory f knobs).calls =
      (Frame.replay scene.commands scene.symbols knobs).calls := by
  have logged : (logKnobs knobs).outcome = .ok () := rfl
  rw [playFrame]
  cases policy.isAnimated with
  | false =>
    rw [if_neg Bool.false_ne_true]
    exact Replay.calls_of_error fails _
  | true =>
    rw [if_pos rfl, Replay.calls_of_ok logged, calls_logKnobs, Replay.calls_of_error fails,
      List.nil_append]

theorem framesCalls_cons : scene.framesCalls policy directory first (knobs :: frames) =
    scene.frameCalls policy directory first knobs ++
      scene.framesCalls policy directory (first + 1) frames := by
  rw [framesCalls, List.zipIdx_cons, List.flatMap_cons]
  rfl

theorem playFrames_ok_iff : (scene.playFrames policy directory first frames).outcome = .ok () ↔
    ∀ knobs ∈ frames, scene.Completes knobs := by
  induction frames generalizing first with
  | nil => simp [playFrames, Trace.pure_eq]
  | cons knobs rest ih =>
    rw [playFrames, Trace.bind_ok_iff, List.forall_mem_cons]
    simp only [playFrame_outcome, ih]
    constructor
    · rintro ⟨_, here, later⟩
      exact ⟨here, later⟩
    · rintro ⟨here, later⟩
      exact ⟨(), here, later⟩

theorem calls_playFrames_of_ok (completes : ∀ knobs ∈ frames, scene.Completes knobs) :
    (scene.playFrames policy directory first frames).calls =
      scene.framesCalls policy directory first frames := by
  induction frames generalizing first with
  | nil => rfl
  | cons knobs rest ih =>
    obtain ⟨here, later⟩ := List.forall_mem_cons.mp completes
    have completed : (scene.playFrame policy directory first knobs).outcome = .ok () :=
      (playFrame_outcome first knobs).trans here
    rw [playFrames, Replay.calls_of_ok completed, calls_playFrame_of_ok here, ih later,
      framesCalls_cons]

theorem calls_playFrames_of_error (turned : frames[f]? = some knobs)
    (earlier : ∀ (g : Nat) (knobs : KnobValues), g < f → frames[g]? = some knobs →
      scene.Completes knobs)
    (fails : (Frame.replay scene.commands scene.symbols knobs).outcome = .error e) :
    (scene.playFrames policy directory first frames).calls =
      scene.framesCalls policy directory first (frames.take f) ++
        (Frame.replay scene.commands scene.symbols knobs).calls := by
  induction frames generalizing first f with
  | nil => cases turned
  | cons other rest ih =>
    cases f with
    | zero =>
      cases turned
      have failed : (scene.playFrame policy directory first knobs).outcome = .error e :=
        (playFrame_outcome first knobs).trans fails
      rw [playFrames, Replay.calls_of_error failed, calls_playFrame_of_error fails]
      rfl
    | succ f =>
      have here : scene.Completes other := earlier 0 other (Nat.succ_pos f) rfl
      have completed : (scene.playFrame policy directory first other).outcome = .ok () :=
        (playFrame_outcome first other).trans here
      have earlier' : ∀ (g : Nat) (knobs : KnobValues), g < f → rest[g]? = some knobs →
          scene.Completes knobs := by
        intro g knobs before
        exact earlier (g + 1) knobs (Nat.succ_lt_succ before)
      have later := @ih f (first + 1) turned earlier'
      rw [playFrames, Replay.calls_of_ok completed, calls_playFrame_of_ok here, later,
        List.take_succ_cons, framesCalls_cons, List.append_assoc]

/-- Frames that fail do so at one command of one frame, and make no call after it. -/
theorem frame_fails (resolves : scene.Resolves policy frames)
    (played : (scene.playFrames policy directory 0 frames).outcome = .error e) :
    ∃ f i c knobs, frames[f]? = some knobs ∧ scene.FailsAt f i c e ∧
      (scene.playFrames policy directory 0 frames).calls =
        scene.framesCalls policy directory 0 (frames.take f) ++
          .clear :: Frame.ownCalls scene.commands scene.symbols knobs i := by
  obtain ⟨f, knobs, turned, earlier, fails⟩ := playFrames_error_iff.mp played
  obtain ⟨i, c, s, point, stands, refused⟩ := Frame.replay_error_iff.mp fails
  have turns (g : Nat) (knobs : KnobValues) : scene.Turns g knobs ↔ frames[g]? = some knobs :=
    turns_iff resolves.policed resolves.resolved
  have before : ∀ g knobs, g < f → scene.Turns g knobs → scene.Completes knobs := by
    intro g knobs lower other
    exact earlier g knobs lower ((turns g knobs).mp other)
  have failsAt : scene.FailsAt f i c e :=
    ⟨knobs, s, ⟨(turns f knobs).mpr turned, before, point⟩, stands, refused⟩
  refine ⟨f, i, c, knobs, turned, failsAt, ?_⟩
  rw [calls_playFrames_of_error turned earlier fails,
    Frame.calls_replay_of_error point stands refused]

/-! ### Calls of a run -/

theorem play_planned (directory : String) (resolves : scene.Resolves policy frames) :
    Planned scene policy directory frames (scene.play directory).calls
      (scene.play directory).outcome := by
  have asked : (Replay.logging scene.policy).outcome = .ok policy :=
    (policy_outcome scene).trans resolves.policed
  have found : (Trace.ofExcept (Timeline.ofCommands scene.commands policy.frames
      (SymbolTable.knobValues scene.symbols)) : Replay _).outcome = .ok frames := resolves.resolved
  have silent : Replay.calls (Trace.ofExcept (Timeline.ofCommands scene.commands policy.frames
      (SymbolTable.knobValues scene.symbols))) = [] := rfl
  rw [play, Replay.calls_of_ok asked, Replay.calls_logging, Replay.outcome_of_ok asked,
    Replay.calls_of_ok found, silent, Replay.outcome_of_ok found, List.nil_append, List.nil_append]
  cases played : (scene.playFrames policy directory 0 frames).outcome with
  | ok done =>
    have completes := playFrames_ok_iff.mp played
    rw [Replay.calls_of_ok played, Replay.outcome_of_ok played, calls_playFrames_of_ok completes]
    have whole := @Planned.complete scene policy directory frames completes
    cases animated : policy.isAnimated
    all_goals
      rw [animated] at whole
      exact whole
  | error e =>
    obtain ⟨f, i, c, knobs, turned, fails, made⟩ := frame_fails resolves played
    rw [Replay.calls_of_error played, Trace.bind_error_iff.mpr (.inl played), made]
    exact .failing turned fails

theorem play_unresolved (directory : String) (unresolved : scene.Unresolved e) :
    (scene.play directory).calls = [] ∧ (scene.play directory).outcome = .error e := by
  rcases unresolved with unpoliced | ⟨policy, policed, unresolved⟩
  · have failed := (policy_outcome scene).trans unpoliced
    rw [play, Replay.calls_of_error failed, Replay.calls_logging]
    exact ⟨rfl, Trace.bind_error_iff.mpr (.inl failed)⟩
  · have asked := (policy_outcome scene).trans policed
    have failed : (Trace.ofExcept (Timeline.ofCommands scene.commands policy.frames
        (SymbolTable.knobValues scene.symbols)) : Replay (List KnobValues)).outcome =
        .error e := unresolved
    rw [play, Replay.calls_of_ok asked, Replay.calls_logging, Replay.outcome_of_ok asked,
      Replay.calls_of_error failed]
    exact ⟨rfl, Trace.bind_error_iff.mpr (.inl failed)⟩

/-! ### Keeping and assembling -/

theorem framePaths_ownCalls (n : Nat) :
    (Frame.ownCalls scene.commands scene.symbols knobs n).filterMap Call.framePath? = [] :=
  List.filterMap_eq_nil_iff.mpr fun _ own => (Frame.ownCalls_own own).1

theorem framePaths_framesCalls :
    (scene.framesCalls policy directory first frames).filterMap Call.framePath? =
      if policy.isAnimated then
        (List.range' first frames.length).map (policy.framePath directory)
      else [] := by
  induction frames generalizing first with
  | nil => cases policy.isAnimated <;> rfl
  | cons knobs rest ih =>
    have here : (scene.frameCalls policy directory first knobs).filterMap Call.framePath? =
        if policy.isAnimated then [policy.framePath directory first] else [] := by
      rw [frameCalls, List.filterMap_append, List.filterMap_cons, framePaths_ownCalls]
      cases policy.isAnimated <;> rfl
    rw [framesCalls_cons, List.filterMap_append, ih, here]
    cases policy.isAnimated <;> rfl

theorem assemble_not_mem_framesCalls (name : String) :
    .assemble name ∉ scene.framesCalls policy directory first frames := by
  intro given
  obtain ⟨⟨knobs, f⟩, _, given⟩ := List.mem_flatMap.mp given
  rcases List.mem_append.mp given with given | kept
  · rcases List.mem_cons.mp given with cleared | own
    · cases cleared
    · exact (Frame.ownCalls_own own).2 name rfl
  · split at kept
    · cases List.mem_singleton.mp kept
    · cases kept

namespace Planned

variable {before after : List Call} {name : String}

/-- The kept frames are assembled last, and only in a run that keeps all its frames. -/
theorem assembles (planned : Planned scene policy directory frames calls outcome)
    (cut : calls = before ++ .assemble name :: after) :
    name = policy.basename ∧ after = [] ∧ policy.isAnimated = true ∧
      before = scene.framesCalls policy directory 0 frames := by
  have given : .assemble name ∈ calls := by simp [cut]
  cases planned with
  | complete completes =>
    rcases List.mem_append.mp given with early | last
    · exact absurd early (assemble_not_mem_framesCalls name)
    · cases animated : policy.isAnimated with
      | false =>
        rw [animated] at last
        cases last
      | true =>
        rw [animated, if_pos rfl] at last cut
        cases List.mem_singleton.mp last
        rcases List.eq_nil_or_concat after with rfl | ⟨later, final, rfl⟩
        · have kept := (List.append_inj' cut rfl).1
          exact ⟨rfl, rfl, rfl, kept.symm⟩
        · -- With a call behind it, the call to assemble would be one of the frames.
          rw [List.concat_eq_append, ← List.cons_append, ← List.append_assoc] at cut
          have kept := (List.append_inj' cut rfl).1
          have early : .assemble policy.basename ∈ scene.framesCalls policy directory 0 frames := by
            rw [kept]
            simp
          exact absurd early (assemble_not_mem_framesCalls policy.basename)
  | failing turned fails =>
    rcases List.mem_append.mp given with early | last
    · exact absurd early (assemble_not_mem_framesCalls name)
    · rcases List.mem_cons.mp last with cleared | own
      · cases cleared
      · exact absurd rfl ((Frame.ownCalls_own own).2 name)

/-- No two frames are kept under one path. -/
theorem nodup_framePaths (planned : Planned scene policy directory frames calls outcome) :
    (calls.filterMap Call.framePath?).Nodup := by
  have distinct (frames : List KnobValues) :
      ((scene.framesCalls policy directory 0 frames).filterMap Call.framePath?).Nodup := by
    rw [framePaths_framesCalls]
    split
    · refine List.Nodup.map ?_ List.nodup_range'
      intro f g same
      exact FramePolicy.framePath_injective same
    · exact List.nodup_nil
  cases planned with
  | complete completes =>
    have unkept : (if policy.isAnimated then [Call.assemble policy.basename] else []).filterMap
        Call.framePath? = [] := by
      cases policy.isAnimated <;> rfl
    rw [List.filterMap_append, unkept, List.append_nil]
    exact distinct frames
  | failing turned fails =>
    rw [List.filterMap_append, List.filterMap_cons, framePaths_ownCalls]
    simpa [Call.framePath?] using distinct _

end Planned

theorem kept_of_framesCalls (animated : policy.isAnimated = true) {g : Nat}
    (inside : g < frames.length) :
    .saveFrame (policy.framePath directory g) ∈ scene.framesCalls policy directory 0 frames := by
  refine List.mem_flatMap.mpr ⟨(frames[g], g), ?_, ?_⟩
  · rw [List.mk_mem_zipIdx_iff_getElem?, List.getElem?_eq_getElem inside]
  · simp [frameCalls, animated]

/-! ### The protocol -/

variable {told before after : List (Call × Except Error Unit)} {answer : Except Error Unit}
variable {result : Except Error FramePolicy} {name : String}

/-- A host is asked to assemble last, and when it has answered the call for every frame. -/
theorem assembled_after_all (planned : Planned scene policy directory frames calls outcome)
    (carried : Carried calls outcome told result)
    (here : told = before ++ (.assemble name, answer) :: after) :
    name = policy.basename ∧ after = [] ∧ 1 < policy.frames ∧
      ∀ f < frames.length, (.saveFrame (policy.framePath directory f), .ok ()) ∈ before := by
  obtain ⟨unasked, cut⟩ := carried.asked
  rw [here, List.map_append, List.map_cons, List.append_assoc, List.cons_append] at cut
  obtain ⟨named, last, animated, all⟩ := planned.assembles cut
  have ended : after = [] := List.map_eq_nil_iff.mp (List.append_eq_nil_iff.mp last).1
  refine ⟨named, ended, of_decide_eq_true animated, ?_⟩
  intro f inside
  have kept : .saveFrame (policy.framePath directory f) ∈ before.map Prod.fst := by
    rw [all]
    exact kept_of_framesCalls animated inside
  obtain ⟨⟨c, answer'⟩, member, same⟩ := List.mem_map.mp kept
  have earlier : (c, answer') ∈ told.dropLast := by
    rw [here, List.dropLast_append_cons]
    exact List.mem_append_left _ member
  have answered : answer' = .ok () := carried.answered _ earlier
  dsimp only at same
  rwa [answered, same] at member

/-- The protocol of a run with any host. A scene that cannot be resolved makes no call. Any other
scene makes the calls that are planned for it, in their order, up to its own failure or to the first
call that the host refuses, and the run ends with that error. The host is asked to assemble only
after it has kept every frame, and it is never asked to keep two frames under one path. -/
theorem play_protocol (scene : Scene) (directory : String) {σ : Type} (host : Host σ) (world : σ) :
    let told := host.dialogue (scene.play directory) world
    let result := (host.run (scene.play directory) world).2
    ((∀ e, FramePolicy.ofCommands scene.commands = .error e ↔ e = .framesNotSet ∧
        (∃ c ∈ scene.commands, FramePolicy.turnsKnobs c = true) ∧ ∀ n, .frames n ∉ scene.commands) ∧
      ∀ policy, FramePolicy.ofCommands scene.commands = .ok policy →
        (∀ n, InOrder.Latest FramePolicy.Sets scene.commands n →
          policy.frames = (max n 1).toNat) ∧
        ((∀ n, .frames n ∉ scene.commands) → policy.frames = 1)) ∧
    (∀ e, scene.Unresolved e → told = [] ∧ result = .error e) ∧
    (∀ policy frames, scene.Resolves policy frames → frames.length = policy.frames ∧
      (∃ calls outcome, Planned scene policy directory frames calls outcome ∧
        Carried calls outcome told result) ∧
      ∀ before name answer after, told = before ++ (.assemble name, answer) :: after →
        name = policy.basename ∧ after = [] ∧ 1 < policy.frames ∧
          ∀ f < policy.frames, (.saveFrame (policy.framePath directory f), .ok ()) ∈ before) ∧
    (told.filterMap fun asked => asked.1.framePath?).Nodup := by
  intro told result
  have carried : Carried (scene.play directory).calls (scene.play directory).outcome told result :=
    host.carried (scene.play directory) world
  refine ⟨⟨fun e => FramePolicy.ofCommands_error_iff, fun policy => FramePolicy.frames_of_ok⟩,
    ?_, ?_, ?_⟩
  · intro e unresolved
    obtain ⟨silent, failed⟩ := play_unresolved directory unresolved
    rw [silent, failed] at carried
    exact carried.of_nil
  · intro policy frames resolves
    have planned := play_planned directory resolves
    have length : frames.length = policy.frames := Timeline.ofCommands_length resolves.resolved
    refine ⟨length, ⟨_, _, planned, carried⟩, ?_⟩
    intro before name answer after here
    obtain ⟨named, last, animated, kept⟩ := assembled_after_all planned carried here
    exact ⟨named, last, animated, length ▸ kept⟩
  · have distinct : ((scene.play directory).calls.filterMap Call.framePath?).Nodup := by
      rcases scene.unresolved_or_resolves with ⟨e, unresolved⟩ | ⟨policy, frames, resolves⟩
      · rw [(play_unresolved directory unresolved).1]
        exact List.nodup_nil
      · exact (play_planned directory resolves).nodup_framePaths
    obtain ⟨unasked, cut⟩ := carried.asked
    rw [cut, List.filterMap_append, List.filterMap_map] at distinct
    exact distinct.of_append_left

/-- Refuses to keep a frame under one path, and answers every other call. -/
def refusing (path : String) : Host Unit where
  call c s := (s, if c.framePath? = some path then .error (.storage .alreadyExists) else .ok ())
  log _ s := s

/-- A run that cannot keep its second frame neither shows it to the end nor assembles the first. -/
theorem refused_frame_ends_run :
    let scene : Scene := ⟨[.frames 2, .basename "t", .display], .empty⟩
    let host := refusing "anim/t001.png"
    (∃ policy frames, scene.Resolves policy frames ∧ frames.length = policy.frames) ∧
      host.dialogue (scene.play "anim") () =
        [(.clear, .ok ()), (.display, .ok ()), (.saveFrame "anim/t000.png", .ok ()),
          (.clear, .ok ()), (.display, .ok ()),
          (.saveFrame "anim/t001.png", .error (.storage .alreadyExists))] ∧
      ((host.dialogue (scene.play "anim") ()).filterMap fun asked => asked.1.framePath?).Nodup := by
  intro scene host
  obtain ⟨_, _, resolved, distinct⟩ := play_protocol scene "anim" host ()
  have resolves : scene.Resolves ⟨"t", 2, false⟩ [.empty, .empty] := ⟨rfl, rfl⟩
  exact ⟨⟨_, _, resolves, (resolved _ _ resolves).1⟩, rfl, distinct⟩

end Flipbook.Scene

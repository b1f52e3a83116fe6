import Flipbook.Proofs.Raster.Store
import Flipbook.Proofs.Run.Protocol
import Flipbook.Studio.Basic

/-!
# The pictures of a run

A frame clears the canvas first and starts with a table and a coordinate system of its own. So
nothing of the frames before it is left in its picture: it is the one that the commands give alone, on
a new picture (`frame_picture`).
-/

namespace Flipbook

/-- The picture after a call. Only the calls to clear and to draw change it. -/
def Picture.after (p : Picture) : Call → Picture
  | .clear => p.clear
  | .polygons points lighting material => p.draw (.polygons points lighting material)
  | .lines points color => p.draw (.edges points color)
  | .display | .save _ | .saveFrame _ | .assemble _ => p

theorem Picture.clear_after (p : Picture) (c : Call) : (p.after c).clear = p.clear := by
  cases c with
  | clear => rfl
  | polygons => exact clear_plotAll
  | lines => exact clear_plotAll
  | _ => rfl

theorem Picture.clear_foldl_after (p : Picture) (calls : List Call) :
    (calls.foldl after p).clear = p.clear := by
  induction calls generalizing p with
  | nil => rfl
  | cons c rest ih => exact (ih (p.after c)).trans (p.clear_after c)

/-- A picture alone, as a host. -/
def Picture.canvas : Host Picture where
  call c p := (p.after c, .ok ())
  log _ p := p

/-- The first call that was to be made is asked, whatever its answer. -/
theorem Carried.starts {α : Type} {c : Call} {calls : List Call} {outcome result : Except Error α}
    {told : List (Call × Except Error Unit)} (carried : Carried (c :: calls) outcome told result) :
    ∃ rest, told.map Prod.fst = c :: rest := by
  cases carried with
  | through => simp
  | @refused before c' after e cut =>
    cases before with
    | nil =>
      cases cut
      exact ⟨[], rfl⟩
    | cons first before =>
      cases cut
      simp

namespace Host

variable {σ τ α β : Type} {host : Host σ} {other : Host τ} {picture : σ → Picture}
variable {paper : τ → Picture} {world : σ}

/-- The calls that a host hears end up in a picture. -/
structure DrawsInto (host : Host σ) (picture : σ → Picture) : Prop where
  call : ∀ c s, picture (host.call c s).1 = (picture s).after c
  log : ∀ entry s, picture (host.log entry s) = picture s

theorem canvas_drawsInto : Picture.canvas.DrawsInto id :=
  ⟨fun _ _ => rfl, fun _ _ => rfl⟩

theorem run_world (r : Replay α) (world : σ) :
    (host.run r world).1 = (host.perform r.events world).1 := by
  unfold run
  split
  · next performed => rw [performed]
  · next performed => rw [performed]

/-- What the calls of a computation and all log entries keep, its run keeps. -/
theorem run_keeps_of_calls {kept : σ → Prop} (r : Replay α)
    (call : ∀ c ∈ r.calls, ∀ s, kept s → kept (host.call c s).1)
    (log : ∀ entry s, kept s → kept (host.log entry s)) {world : σ} (now : kept world) :
    kept (host.run r world).1 := by
  rw [run_world]
  obtain ⟨events, outcome⟩ := r
  induction events generalizing world with
  | nil => exact now
  | cons event rest ih =>
    cases event with
    | log entry => exact ih (log entry world now) call
    | call c =>
      have next := call c List.mem_cons_self world now
      have later : ∀ d ∈ Replay.calls ⟨rest, outcome⟩, ∀ s, kept s → kept (host.call d s).1 :=
        fun d member => call d (List.mem_cons_of_mem c member)
      unfold perform
      split
      · next asked =>
        rw [asked] at next
        exact ih next later
      · next asked =>
        rw [asked] at next
        exact next

/-- What every call and every log entry keeps, a run keeps. -/
theorem run_keeps {kept : σ → Prop} (call : ∀ c s, kept s → kept (host.call c s).1)
    (log : ∀ entry s, kept s → kept (host.log entry s)) (r : Replay α) {world : σ}
    (now : kept world) : kept (host.run r world).1 :=
  run_keeps_of_calls r (fun c _ => call c) log now

theorem recording_world (r : Replay α) (world : σ) :
    (host.recording.run r (world, [])).1.1 = (host.run r world).1 := by
  obtain ⟨told, same, _⟩ := host.perform_recording r.events world []
  rw [run_world, run_world, same]

/-- What a host has drawn follows from the calls that it was asked. -/
theorem run_picture (draws : host.DrawsInto picture) (r : Replay α) (world : σ) :
    picture (host.run r world).1 =
      ((host.dialogue r world).map Prod.fst).foldl Picture.after (picture world) := by
  let drawn (s : σ × List (Call × Except Error Unit)) : Prop :=
    picture s.1 = (s.2.map Prod.fst).foldl Picture.after (picture world)
  have call : ∀ c s, drawn s → drawn (host.recording.call c s).1 := by
    intro c s now
    simp [drawn, recording, draws.call, now.symm]
  have log : ∀ entry s, drawn s → drawn (host.recording.log entry s) := by
    intro entry s now
    exact (draws.log entry s.1).trans now
  have ended : drawn (host.recording.run r (world, [])).1 := run_keeps call log r rfl
  rw [← recording_world]
  exact ended

/-- Every call of a run is answered well. -/
def Grants (host : Host σ) (r : Replay α) (world : σ) : Prop :=
  ∀ asked ∈ host.dialogue r world, asked.2 = .ok ()

theorem grants_of_ok {r : Replay α} {a : α} (ended : (host.run r world).2 = .ok a) :
    host.Grants r world := by
  have carried := host.carried r world
  rw [ended] at carried
  unfold Grants
  generalize host.dialogue r world = told at carried ⊢
  generalize okay : (.ok a : Except Error α) = result at carried
  cases carried with
  | through =>
    intro asked member
    obtain ⟨c, _, rfl⟩ := List.mem_map.mp member
    rfl
  | refused => cases okay

theorem grants_of_willing (willing : host.Willing) (r : Replay α) (world : σ) :
    host.Grants r world := by
  let granted (s : σ × List (Call × Except Error Unit)) : Prop := ∀ asked ∈ s.2, asked.2 = .ok ()
  have call : ∀ c s, granted s → granted (host.recording.call c s).1 := by
    intro c s now asked member
    rcases List.mem_append.mp member with before | here
    · exact now asked before
    · rw [List.mem_singleton.mp here]
      exact willing c s.1
  have start : granted (world, []) := by
    intro asked member
    cases member
  exact run_keeps call (fun _ _ now => now) r start

theorem dialogue_of_grants {r : Replay α} (grants : host.Grants r world) :
    host.dialogue r world = r.calls.map (·, .ok ()) := by
  have carried := host.carried r world
  unfold Grants at grants
  generalize host.dialogue r world = told at carried grants ⊢
  generalize (host.run r world).2 = result at carried
  cases carried with
  | through => rfl
  | @refused before c after e cut =>
    have answered := grants (c, .error e) (by simp)
    cases answered

theorem perform_append (first last : List Event) (world : σ) :
    host.perform (first ++ last) world =
      match host.perform first world with
      | (world, .ok ()) => host.perform last world
      | (world, .error e) => (world, .error e) := by
  induction first generalizing world with
  | nil => rfl
  | cons event rest ih =>
    cases event with
    | log entry => exact ih (host.log entry world)
    | call c =>
      rw [List.cons_append, perform, perform]
      split
      · exact ih _
      · rfl

theorem run_call (host : Host σ) (c : Call) (world : σ) :
    host.run (Replay.call c) world = host.call c world := by
  have asked : (Replay.call c).events = [.call c] := rfl
  unfold run
  rw [asked, perform]
  rcases host.call c world with ⟨next, e | ⟨⟩⟩
  · rfl
  · rfl

theorem outcome_of_run {r : Replay α} {a : α} (ended : (host.run r world).2 = .ok a) :
    r.outcome = .ok a := by
  unfold run at ended
  split at ended
  · exact ended
  · cases ended

/-- A run goes on from the state in which its first part leaves the outside. -/
theorem run_bind (r : Replay α) (next : α → Replay β) (world : σ) :
    host.run (r >>= next) world =
      match host.run r world with
      | (world, .ok a) => host.run (next a) world
      | (world, .error e) => (world, .error e) := by
  obtain ⟨events, outcome⟩ := r
  cases outcome with
  | error e =>
    rw [Trace.bind_eq, Trace.andThen_error, run, run]
    rcases host.perform events world with ⟨world, e | ⟨⟩⟩ <;> rfl
  | ok a =>
    rw [Trace.bind_eq, Trace.andThen_ok, run, run, perform_append]
    rcases host.perform events world with ⟨world, e | ⟨⟩⟩ <;> rfl

theorem run_bind_ok {r : Replay α} {next : α → Replay β} {ended : σ} {b : β}
    (ran : host.run (r >>= next) world = (ended, .ok b)) :
    ∃ middle a, host.run r world = (middle, .ok a) ∧ host.run (next a) middle = (ended, .ok b) := by
  rw [run_bind] at ran
  split at ran
  · next middle a first => exact ⟨middle, a, first, ran⟩
  · cases ran

end Host

namespace Studio

variable (library : ImageLibrary) (screen : Picture → Except Error Unit)

theorem picture_save (s : Studio) (path : String) :
    (s.save library path).1.picture = s.picture := by
  unfold save
  split <;> rfl

theorem picture_saveFrame (s : Studio) (path : String) :
    (s.saveFrame library path).1.picture = s.picture := by
  unfold saveFrame
  split
  · rfl
  · next files _ =>
    have same := picture_save library { s with files } path
    split
    · next saved =>
      rw [saved] at same
      exact same
    · next saved =>
      rw [saved] at same
      exact same

theorem picture_assemble (s : Studio) (basename : String) :
    (s.assemble library basename).1.picture = s.picture := by
  unfold assemble
  dsimp only
  split
  · rfl
  · split
    · rfl
    · split <;> rfl

/-- What a real run draws ends up in its picture. -/
theorem host_drawsInto : (host library screen).DrawsInto picture where
  call c s := by
    cases c with
    | save path => simp only [host, answer, Picture.after, picture_save]
    | saveFrame path => simp only [host, answer, Picture.after, picture_saveFrame]
    | assemble basename => simp only [host, answer, Picture.after, picture_assemble]
    | _ => rfl
  log _ _ := rfl

end Studio

namespace Scene

variable {scene : Scene} {policy : FramePolicy} {directory : String} {frames : List KnobValues}
variable {f : Nat} {knobs : KnobValues}

/-- The run of a scene up to the replay of frame `f`. -/
def playUpTo (scene : Scene) (policy : FramePolicy) (directory : String) (frames : List KnobValues)
    (f : Nat) (knobs : KnobValues) : Replay Unit := do
  let _ ← Replay.logging scene.policy
  scene.playFrames policy directory 0 (frames.take f)
  if policy.isAnimated then logKnobs knobs

/-- The run of a scene after the replay of frame `f`. -/
def playFrom (scene : Scene) (policy : FramePolicy) (directory : String) (frames : List KnobValues)
    (f : Nat) : Replay FramePolicy := do
  if policy.isAnimated then
    Replay.log (.savingFrame (policy.framePath directory f))
    Replay.call (.saveFrame (policy.framePath directory f))
  scene.playFrames policy directory (f + 1) (frames.drop (f + 1))
  if policy.isAnimated then Replay.call (.assemble policy.basename)
  return policy

theorem playFrames_split {first : Nat} (turned : frames[f]? = some knobs) :
    scene.playFrames policy directory first frames = (do
      scene.playFrames policy directory first (frames.take f)
      scene.playFrame policy directory (first + f) knobs
      scene.playFrames policy directory (first + f + 1) (frames.drop (f + 1))) := by
  induction frames generalizing first f with
  | nil => cases turned
  | cons other rest ih =>
    cases f with
    | zero =>
      cases turned
      rw [List.take_zero, playFrames, playFrames]
      simp
    | succ f =>
      have next : first + (f + 1) = first + 1 + f := by omega
      rw [List.take_succ_cons, List.drop_succ_cons, playFrames, playFrames, next, bind_assoc]
      rw [@ih f (first + 1) turned]

theorem play_of_resolves (resolves : scene.Resolves policy frames) :
    scene.play directory = (do
      let _ ← Replay.logging scene.policy
      scene.playFrames policy directory 0 frames
      if policy.isAnimated then Replay.call (.assemble policy.basename)
      return policy) := by
  unfold play
  refine Trace.bind_congr_ok fun other asked => ?_
  rw [policy_outcome, resolves.policed] at asked
  cases asked
  rw [resolves.resolved]
  rfl

theorem play_split (resolves : scene.Resolves policy frames) (turned : frames[f]? = some knobs) :
    scene.play directory = (do
      scene.playUpTo policy directory frames f knobs
      Frame.replay scene.commands scene.symbols knobs
      scene.playFrom policy directory frames f) := by
  rw [play_of_resolves resolves, playFrames_split turned, Nat.zero_add]
  unfold playUpTo playFrame playFrom
  cases policy.isAnimated <;> simp [bind_assoc]

theorem starts_clear {σ : Type} (host : Host σ) (world : σ) :
    ∃ rest, (host.dialogue (Frame.replay scene.commands scene.symbols knobs) world).map Prod.fst =
      .clear :: rest := by
  have cleared : (Replay.call .clear).outcome = .ok () := rfl
  have carried := host.carried (Frame.replay scene.commands scene.symbols knobs) world
  unfold Frame.replay at carried ⊢
  rw [Replay.calls_of_ok cleared] at carried
  exact carried.starts

variable {σ τ : Type} {host : Host σ} {other : Host τ} {picture : σ → Picture} {paper : τ → Picture}
variable {world start : σ} {fresh : τ}

/-- The picture of a frame follows from the answers to its calls and from what is never drawn over:
the size of the picture, its background and its greatest channel. -/
theorem replay_picture (draws : host.DrawsInto picture) (draws' : other.DrawsInto paper)
    (alike : (picture start).clear = (paper fresh).clear)
    (same : other.dialogue (Frame.replay scene.commands scene.symbols knobs) fresh =
      host.dialogue (Frame.replay scene.commands scene.symbols knobs) start) :
    picture (host.run (Frame.replay scene.commands scene.symbols knobs) start).1 =
      paper (other.run (Frame.replay scene.commands scene.symbols knobs) fresh).1 := by
  obtain ⟨rest, cleared⟩ := @starts_clear scene knobs σ host start
  rw [Host.run_picture draws, Host.run_picture draws', same, cleared, List.foldl_cons,
    List.foldl_cons]
  exact congrArg (List.foldl Picture.after · rest) alike

/-- The run of a scene comes to frame `f`, which turns `knobs`, with the outside in a state. -/
structure ComesTo (scene : Scene) (policy : FramePolicy) (frames : List KnobValues)
    (directory : String) (host : Host σ) (world : σ) (f : Nat) (knobs : KnobValues) (start : σ) :
    Prop where
  turned : frames[f]? = some knobs
  reached : host.run (scene.playUpTo policy directory frames f knobs) world = (start, .ok ())

theorem ComesTo.alike (comes : scene.ComesTo policy frames directory host world f knobs start)
    (draws : host.DrawsInto picture) : (picture start).clear = (picture world).clear := by
  have drawn := Host.run_picture draws (scene.playUpTo policy directory frames f knobs) world
  rw [comes.reached] at drawn
  rw [drawn, Picture.clear_foldl_after]

/-- The picture that the commands of a scene give alone, on a new picture. -/
def still (scene : Scene) (knobs : KnobValues) (sheet : Picture) : Picture :=
  (Picture.canvas.run (Frame.replay scene.commands scene.symbols knobs) sheet).1

theorem picture_eq_still (draws : host.DrawsInto picture) {sheet : Picture}
    (alike : (picture start).clear = sheet.clear)
    (grants : host.Grants (Frame.replay scene.commands scene.symbols knobs) start) :
    picture (host.run (Frame.replay scene.commands scene.symbols knobs) start).1 =
      scene.still knobs sheet := by
  have willing : Picture.canvas.Willing := fun _ _ => rfl
  have alone := Host.dialogue_of_grants (Host.grants_of_willing willing
    (Frame.replay scene.commands scene.symbols knobs) sheet)
  have same := Host.dialogue_of_grants grants
  exact replay_picture draws Host.canvas_drawsInto alike (alone.trans same.symm)

/-- The picture at the end of a frame is the one that the commands give alone, with the knobs of the
frame and the same answers, on a new picture. If the frame goes well, this is also the picture that
is kept. So frames with equal knobs have equal pictures. -/
theorem frame_picture (draws : host.DrawsInto picture) (resolves : scene.Resolves policy frames)
    (comes : scene.ComesTo policy frames directory host world f knobs start) :
    let replay := Frame.replay scene.commands scene.symbols knobs
    let sheet := Picture.new (picture world).size (picture world).maxColor (picture world).background
    let ended := host.run replay start
    host.run (scene.play directory) world =
        host.run (do replay; scene.playFrom policy directory frames f) start ∧
      (∀ {τ : Type} {other : Host τ} {paper : τ → Picture} {fresh : τ}, other.DrawsInto paper →
        paper fresh = sheet → other.dialogue replay fresh = host.dialogue replay start →
          picture ended.1 = paper (other.run replay fresh).1) ∧
      (host.Grants replay start → picture ended.1 = scene.still knobs sheet) ∧
      (ended.2 = .ok () → policy.isAnimated = true → ∃ (kept : σ) (later : Replay FramePolicy),
        picture kept = scene.still knobs sheet ∧ host.run (scene.play directory) world =
          host.run (do Replay.call (.saveFrame (policy.framePath directory f)); later) kept) ∧
      (∀ g again, scene.ComesTo policy frames directory host world g knobs again →
        host.Grants replay start → host.Grants replay again →
          picture (host.run replay again).1 = picture ended.1) := by
  intro replay sheet ended
  have alike : (picture start).clear = sheet.clear := comes.alike draws
  have goesOn : host.run (scene.play directory) world =
      host.run (do replay; scene.playFrom policy directory frames f) start := by
    rw [play_split resolves comes.turned, Host.run_bind, comes.reached]
  have alone : host.Grants replay start → picture ended.1 = scene.still knobs sheet :=
    picture_eq_still draws alike
  refine ⟨goesOn, ?_, alone, ?_, ?_⟩
  · intro τ other paper fresh draws' new same
    refine replay_picture draws draws' ?_ same
    rw [new]
    exact alike
  · intro completes animated
    refine ⟨host.log (.savingFrame (policy.framePath directory f)) ended.1, do
      scene.playFrames policy directory (f + 1) (frames.drop (f + 1))
      if policy.isAnimated then Replay.call (.assemble policy.basename)
      return policy, ?_, ?_⟩
    · rw [draws.log]
      exact alone (Host.grants_of_ok completes)
    · have result : host.run replay start = (ended.1, .ok ()) := Prod.ext rfl completes
      rw [goesOn, Host.run_bind, result, playFrom, if_pos animated]
      exact Host.run_bind ..
  · intro g again comes' grants grants'
    rw [alone grants]
    exact picture_eq_still draws (comes'.alike draws) grants'

/-- A group that the first frame leaves open does not move the line of the second frame. -/
theorem open_group_ends_with_frame :
    let draws : Command := .line none ⟨0, 0, 0⟩ none ⟨0, 0, 0⟩ none
    let scene : Scene :=
      ⟨[.frames 2, .basename "t", draws, .push, .transform (.move ⟨1, 0, 0⟩) none], .empty⟩
    let sheet : Picture := .new ⟨2, 1⟩ 255 ⟨255, 255, 255⟩
    let replay := Frame.replay scene.commands scene.symbols .empty
    ∃ policy frames first second,
      scene.Resolves policy frames ∧
      scene.ComesTo policy frames "anim" Picture.canvas sheet 0 .empty first ∧
      scene.ComesTo policy frames "anim" Picture.canvas sheet 1 .empty second ∧
      (Picture.canvas.run replay second).1 = (Picture.canvas.run replay first).1 ∧
      (Picture.canvas.run replay second).1.bytes = [0, 0, 0, 255, 255, 255] := by
  intro draws scene sheet replay
  have resolves : scene.Resolves ⟨"t", 2, false⟩ [.empty, .empty] := ⟨rfl, rfl⟩
  have comes : scene.ComesTo ⟨"t", 2, false⟩ [.empty, .empty] "anim" Picture.canvas sheet 0 .empty
      sheet := ⟨rfl, rfl⟩
  have comes' : scene.ComesTo ⟨"t", 2, false⟩ [.empty, .empty] "anim" Picture.canvas sheet 1 .empty
      (scene.still .empty sheet) := ⟨rfl, rfl⟩
  have willing : Picture.canvas.Willing := fun _ _ => rfl
  have grants (p : Picture) : Picture.canvas.Grants replay p := Host.grants_of_willing willing _ p
  obtain ⟨_, _, _, _, alike⟩ := frame_picture Host.canvas_drawsInto resolves comes
  exact ⟨_, _, _, _, resolves, comes, comes', alike 1 _ comes' (grants _) (grants _),
    by decide +kernel⟩

end Scene

end Flipbook

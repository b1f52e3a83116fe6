import Flipbook.Animation.Timeline
import Flipbook.Replay.Frame
import Flipbook.Script.Scene

/-!
# Runs

A run resolves the animation of a scene and replays its frames. Only a run of several frames keeps
them and makes an animation of them.
-/

namespace Flipbook

namespace Scene

def logKnobs (knobs : KnobValues) : Replay Unit :=
  ⟨knobs.entries.map fun (name, value) => .log (.knob name value), .ok ()⟩

/-- Replays one frame and, in an animation, keeps it. -/
def playFrame (scene : Scene) (policy : FramePolicy) (directory : String) (frame : Nat)
    (knobs : KnobValues) : Replay Unit := do
  if policy.isAnimated then logKnobs knobs
  Frame.replay scene.commands scene.symbols knobs
  if policy.isAnimated then
    let path := policy.framePath directory frame
    Replay.log (.savingFrame path)
    Replay.call (.saveFrame path)

/-- Replays frames in order, numbered from `frame`. -/
def playFrames (scene : Scene) (policy : FramePolicy) (directory : String) :
    Nat → List KnobValues → Replay Unit
  | _, [] => return ()
  | frame, knobs :: rest => do
    scene.playFrame policy directory frame knobs
    scene.playFrames policy directory (frame + 1) rest

/-- The frame policy of a scene. A name that is chosen by default is reported. -/
def policy (scene : Scene) : Trace LogEntry Error FramePolicy := do
  let policy ← Trace.ofExcept (FramePolicy.ofCommands scene.commands)
  if policy.basenameDefaulted then Trace.report .basenameDefaulted
  return policy

/-- Runs a scene. The files of its frames are named in `directory`. -/
def play (scene : Scene) (directory : String) : Replay FramePolicy := do
  let policy ← Replay.logging scene.policy
  let frames ← Trace.ofExcept
    (Timeline.ofCommands scene.commands policy.frames (SymbolTable.knobValues scene.symbols))
  scene.playFrames policy directory 0 frames
  if policy.isAnimated then Replay.call (.assemble policy.basename)
  return policy

def playSource (origin source directory : String) : Replay Unit := do
  let scene ← Replay.logging (ofSource origin source)
  let policy ← scene.play directory
  Replay.log (.finished origin policy)

end Scene

end Flipbook

import Flipbook.Animation.Ramp
import Flipbook.Symbols

/-!
# Timelines

The knobs that each frame of a run turns. The commands are read once, in order: `vary` and `tween`
write ramps into the frames, over what earlier ones wrote, while `set` and `setknobs` change the
running values that `saveknobs` remembers.
-/

namespace Flipbook

namespace Timeline

/-- What is known after some commands. -/
structure State where
  frames : List KnobValues
  /-- The values of all knobs, as `set` and `setknobs` leave them. -/
  running : KnobValues
  lists : NameMap KnobValues

def State.start (frames : Nat) (declared : KnobValues) : State :=
  ⟨List.replicate frames .empty, declared, .empty⟩

/-- The frames with a ramp written over one knob. -/
def writeRamp (knob : String) (ramp : Ramp Float32) (frames : List KnobValues) : List KnobValues :=
  frames.mapIdx fun frame knobs =>
    if ramp.range.contains frame then knobs.insert knob (ramp.value frame) else knobs

/-- The ramps from one remembered list to another, by knob. A knob that one of them lacks is taken
to stand at 0 there. -/
def tweenRamps (range : FrameRange) (start stop : KnobValues) (easing : Option Easing) :
    List (String × Ramp Float32) :=
  (start.overlay stop).names.map fun knob =>
    (knob, ⟨range, (start.get? knob).getD 0, (stop.get? knob).getD 0, easing⟩)

/-- The frames with several ramps written over them. -/
def writeRamps (ramps : List (String × Ramp Float32)) (frames : List KnobValues) :
    List KnobValues :=
  ramps.foldl (fun frames (knob, ramp) => writeRamp knob ramp frames) frames

def State.list (s : State) (name : String) : Except Error KnobValues :=
  match s.lists.get? name with
  | some knobs => .ok knobs
  | none => .error (.unknownKnobList name)

/-- A range that has to fit into the run. -/
def State.checkRange (s : State) (name : String) (range : FrameRange) : Except Error Unit :=
  if range.fits s.frames.length then .ok ()
  else .error (.frameRange name range.first range.last s.frames.length)

def State.step (s : State) : Command → Except Error State
  | .vary knob range start stop easing => do
    s.checkRange knob range
    return { s with frames := writeRamp knob ⟨range, start, stop, easing⟩ s.frames }
  | .set knob value => .ok { s with running := s.running.insert knob value }
  | .setKnobs value => .ok { s with running := s.running.map fun _ => value }
  | .saveKnobs list => .ok { s with lists := s.lists.insert list s.running }
  | .tween range start stop easing => do
    s.checkRange s!"{start} -> {stop}" range
    let before ← s.list start
    let after ← s.list stop
    return { s with frames := writeRamps (tweenRamps range before after easing) s.frames }
  | _ => .ok s

/-- The knobs of each frame of a run. `declared` are the values before the first command. -/
def ofCommands (commands : List Command) (frames : Nat) (declared : KnobValues) :
    Except Error (List KnobValues) := do
  let s ← commands.foldlM State.step (State.start frames declared)
  return s.frames

end Timeline

end Flipbook

import Flipbook.Geometry.CoordinateStack
import Flipbook.Replay.Event

/-!
# Frames

Every frame replays all commands from the start: with the table of the scene, in which the knobs of
the frame are turned, and with one open coordinate system.
-/

namespace Flipbook

namespace Frame

/-- The color of lines: black. -/
def lineColor : Color := ⟨0, 0, 0⟩

/-- What stays the same during a frame. -/
structure Setting where
  /-- The knobs that the frame turns. -/
  knobs : KnobValues
  lighting : Lighting Float32

/-- What commands change during a frame. -/
structure State where
  stack : CoordinateStack Float32
  symbols : SymbolTable

/-- How far an optional knob is turned. Without a knob that is 1. -/
def factor (symbols : SymbolTable) : Option String → Except Error Float32
  | none => .ok 1
  | some knob => SymbolTable.knob symbols knob

/-- The table after a knob is set. A knob that the frame turns keeps its value. -/
def Setting.set (setting : Setting) (symbols : SymbolTable) (knob : String) (value : Float32) :
    SymbolTable :=
  if setting.knobs.contains knob then symbols else SymbolTable.setKnob symbols knob value

/-- The table after all knobs are set. The knobs that the frame turns keep their values. -/
def Setting.setAll (setting : Setting) (symbols : SymbolTable) (value : Float32) : SymbolTable :=
  SymbolTable.applyKnobs (SymbolTable.setAllKnobs symbols value) setting.knobs

/-- Points of the current coordinate system in the outermost one. -/
def State.place (s : State) (points : List (Point Float32)) : List (Point Float32) :=
  points.map s.stack.current.apply

def execute (setting : Setting) (s : State) : Command → Replay State
  | .display => do
    Replay.call .display
    return s
  | .save path => do
    Replay.call (.save path)
    return s
  | .push => return { s with stack := s.stack.push }
  | .pop =>
    match s.stack.pop? with
    | some stack => return { s with stack }
    | none => .fail .stackUnderflow
  | .transform motion knob => do
    let turned ← Trace.ofExcept (factor s.symbols knob)
    return { s with stack := s.stack.transform (motion.matrix turned) }
  | .line _ start _ stop _ => do
    Replay.call (.lines (s.place (Mesh.edge start stop)) lineColor)
    return s
  | .solid shape material system => do
    let material ← Trace.ofExcept (SymbolTable.material s.symbols material)
    if let some name := system then Replay.log (.systemUnused name)
    Replay.call (.polygons (s.place shape.points) setting.lighting material)
    return s
  | .set knob value => return { s with symbols := setting.set s.symbols knob value }
  | .setKnobs value => return { s with symbols := setting.setAll s.symbols value }
  | .basename _ | .frames _ | .vary .. | .saveKnobs _ | .tween .. => return s

def executeAll (setting : Setting) : List Command → State → Replay State
  | [], s => return s
  | c :: rest, s => do executeAll setting rest (← execute setting s c)

/-- The table with which a frame starts. -/
def table (symbols : SymbolTable) (knobs : KnobValues) : SymbolTable :=
  SymbolTable.applyKnobs symbols knobs

/-- What stays the same during the frame that turns the given knobs. -/
def Setting.of (symbols : SymbolTable) (knobs : KnobValues) : Setting :=
  ⟨knobs, SymbolTable.lighting (table symbols knobs)⟩

def replay (commands : List Command) (symbols : SymbolTable) (knobs : KnobValues) :
    Replay Unit := do
  Replay.call .clear
  let s ← executeAll (.of symbols knobs) commands ⟨.start, table symbols knobs⟩
  if 1 < s.stack.depth then Replay.log (.unmatchedPushes (s.stack.depth - 1))

end Frame

end Flipbook

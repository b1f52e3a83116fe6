import Flipbook.Log
import Flipbook.Symbols
import Flipbook.Trace

/-!
# Events

What a run asks of the outside, and what it logs, in order. The outside keeps its own state and may
refuse a call. The first refusal ends the run.
-/

namespace Flipbook

/-- A call to the canvas or, for the last two, to the store of frames. -/
inductive Call
  | clear
  /-- Draws a shaded triangle for each three points. -/
  | polygons (points : List (Point Float32)) (lighting : Lighting Float32)
      (material : Material Float32)
  /-- Draws a segment for each two points. -/
  | lines (points : List (Point Float32)) (color : Color)
  | display
  | save (path : String)
  /-- Keeps the picture as the next frame. -/
  | saveFrame (path : String)
  /-- Makes an animation of the kept frames. -/
  | assemble (basename : String)
  deriving DecidableEq

/-- A call or a log entry. -/
inductive Event
  | call (c : Call)
  | log (entry : LogEntry)
  deriving DecidableEq

/-- A computation that makes calls and log entries. -/
abbrev Replay := Trace Event Error

def Replay.call (c : Call) : Replay Unit := .report (.call c)

def Replay.log (entry : LogEntry) : Replay Unit := .report (.log entry)

def Replay.logging {α : Type} (t : Trace LogEntry Error α) : Replay α :=
  ⟨t.events.map .log, t.outcome⟩

/-- An outside with states `σ`. -/
structure Host (σ : Type) where
  /-- Answers a call, or refuses it with an error. -/
  call : Call → σ → σ × Except Error Unit
  log : LogEntry → σ → σ

namespace Host

variable {σ α : Type}

/-- Performs events in order, up to the first refused call. -/
def perform (host : Host σ) : List Event → σ → σ × Except Error Unit
  | [], s => (s, .ok ())
  | .log entry :: rest, s => host.perform rest (host.log entry s)
  | .call c :: rest, s =>
    match host.call c s with
    | (s, .ok ()) => host.perform rest s
    | (s, .error e) => (s, .error e)

/-- Runs a computation. It ends with the error of the first refused call or with its own outcome. -/
def run (host : Host σ) (r : Replay α) (s : σ) : σ × Except Error α :=
  match host.perform r.events s with
  | (s, .ok ()) => (s, r.outcome)
  | (s, .error e) => (s, .error e)

end Host

end Flipbook

import Flipbook.Animation.FramePolicy
import Flipbook.Number.Decimal

/-!
# Log entries

What is worth knowing about a run besides its result.
-/

namespace Flipbook

open Script (Place)

/-- How important an entry is. -/
inductive LogLevel
  | error | warn | info | debug | trace
  deriving DecidableEq, Repr

def LogLevel.name : LogLevel → String
  | error => "ERROR"
  | warn => "WARN"
  | info => "INFO"
  | debug => "DEBUG"
  | trace => "TRACE"

/-- Whether entries of a level are shown to a user who does not ask for more. -/
def LogLevel.isShown : LogLevel → Bool
  | error | warn | info => true
  | debug | trace => false

/-- An entry of the log. -/
inductive LogEntry
  /-- No script was named. -/
  | scriptDefaulted (path : String)
  | running (path : String)
  /-- Tokens that start no statement were passed over. -/
  | statementIgnored (place : Place) (text : String)
  /-- A rotation about an axis that there is not. -/
  | axisUnknown (place : Place) (word : String)
  /-- The name of the files was left out. -/
  | basenameDefaulted
  /-- A knob of an animated frame. -/
  | knob (name : String) (value : Float32)
  /-- A solid names a coordinate system. -/
  | systemUnused (name : String)
  | unmatchedPushes (count : Nat)
  | savingFrame (path : String)
  | saved (path : String)
  | created (path : String)
  | finished (path : String) (policy : FramePolicy)
  deriving DecidableEq

def LogEntry.level : LogEntry → LogLevel
  | statementIgnored .. | axisUnknown .. | basenameDefaulted | unmatchedPushes _ => .warn
  | scriptDefaulted _ | running _ | knob .. | savingFrame _ | created _ | finished .. => .info
  | saved _ => .debug
  | systemUnused _ => .trace

def LogEntry.text : LogEntry → String
  | scriptDefaulted path =>
    s!"A path to a script wasn't provided. '{path}' was chosen by default."
  | running path => s!"Running script '{path}'."
  | statementIgnored place text => s!"{place.text} -> Ignoring unrecognized statement '{text}'"
  | axisUnknown place word =>
    s!"{place.text} -> Unknown rotation axis '{word}', rotating about z."
  | basenameDefaulted =>
    s!"Number of frames was set but basename wasn't. '{FramePolicy.defaultBasename}' was chosen by default."
  | knob name value => s!"knob: {name}\tvalue: {Number.decimalText value}"
  | systemUnused name =>
    s!"Coordinate system '{name}' requested; using the current stack top."
  | unmatchedPushes count => s!"Frame ended with {count} unmatched push(es)."
  | savingFrame path => s!"Saving frame: {path}"
  | saved path => s!"{path} saved."
  | created path => s!"{path} created."
  | finished path policy =>
    if policy.isAnimated then
      let source := if policy.basenameDefaulted then "default" else "script"
      s!"Finished '{path}' ({policy.frames} frames, {source} basename '{policy.basename}')."
    else s!"Finished '{path}' (1 frame)."

end Flipbook

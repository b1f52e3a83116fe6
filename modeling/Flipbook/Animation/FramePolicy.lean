import Flipbook.Error
import Flipbook.Script.Command

/-!
# Frame policies

How many frames a run has and how their files are named. A script that turns a knob over frames
has to set their number.
-/

namespace Flipbook

/-- The number of frames, and the name of their files. -/
structure FramePolicy where
  basename : String
  frames : Nat
  /-- Whether the name was left out although the number was set. -/
  basenameDefaulted : Bool
  deriving DecidableEq, Repr

namespace FramePolicy

/-- The name of the files of a script that gives none. -/
def defaultBasename : String := "frame"

/-- Whether the run has more than one frame. -/
def isAnimated (p : FramePolicy) : Bool :=
  1 < p.frames

/-- The number of a frame in at least three digits. -/
def frameNumber (frame : Nat) : String :=
  let digits := Nat.toDigits 10 frame
  .ofList (List.replicate (3 - digits.length) '0' ++ digits)

def framePath (p : FramePolicy) (directory : String) (frame : Nat) : String :=
  s!"{directory}/{p.basename}{frameNumber frame}.png"

/-- The last number of frames that is set. -/
def framesSet? (commands : List Command) : Option Int :=
  commands.foldl (fun found c => match c with | .frames n => some n | _ => found) none

/-- The last name of the files that is set. -/
def basenameSet? (commands : List Command) : Option String :=
  commands.foldl (fun found c => match c with | .basename name => some name | _ => found) none

def turnsKnobs : Command → Bool
  | .vary .. => true
  | .tween .. => true
  | _ => false

/-- The policy of a script. There is always at least one frame. -/
def ofCommands (commands : List Command) : Except Error FramePolicy :=
  match framesSet? commands, basenameSet? commands with
  | none, name? =>
    if commands.any turnsKnobs then .error .framesNotSet
    else .ok ⟨name?.getD defaultBasename, 1, false⟩
  | some n, some name => .ok ⟨name, (max n 1).toNat, false⟩
  | some n, none => .ok ⟨defaultBasename, (max n 1).toNat, true⟩

theorem ofCommands_symbol {commands : List Command} {e : Error}
    (failed : ofCommands commands = .error e) : e.symbol? = none := by
  rw [ofCommands] at failed
  split at failed
  · split at failed
    · cases failed
      rfl
    · cases failed
  · cases failed
  · cases failed

end FramePolicy

end Flipbook

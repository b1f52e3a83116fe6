import Flipbook.Animation.Easing
import Flipbook.Script.Command

/-!
# Ramps

A ramp takes a value from one end to another over a range of frames, in equal steps or eased.
-/

namespace Flipbook

def FrameRange.contains (r : FrameRange) (frame : Int) : Bool :=
  r.first ≤ frame && frame ≤ r.last

/-- Whether a range has at least two frames and lies in a run of `frames` frames. -/
def FrameRange.fits (r : FrameRange) (frames : Nat) : Bool :=
  0 ≤ r.first && r.last < frames && r.first < r.last

/-- A value that changes over a range of frames. -/
structure Ramp (α : Type) where
  range : FrameRange
  start : α
  stop : α
  easing : Option Easing

variable {α : Type} [Add α] [Sub α] [Mul α] [Div α] [Neg α]
variable [OfNat α 0] [OfNat α 1] [OfNat α 2] [OfNat α 3] [OfNat α 6] [OfScientific α]
variable [LT α] [LE α] [DecidableLT α] [DecidableLE α] [GridNumber α]

/-- The value at a frame of the range. -/
def Ramp.value (r : Ramp α) (frame : Int) : α :=
  let span : α := GridNumber.ofInt (r.range.last - r.range.first)
  let offset : α := GridNumber.ofInt (frame - r.range.first)
  match r.easing with
  | some easing => r.start + (r.stop - r.start) * easing.apply (offset / span)
  | none => r.start + (r.stop - r.start) / span * offset

end Flipbook

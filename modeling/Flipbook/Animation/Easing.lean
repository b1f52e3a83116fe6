import Flipbook.Geometry.Matrix

/-!
# Easings

An easing turns the progress of time into the progress of a motion. It is a cubic Bézier curve from
(0, 0) to (1, 1): the parameter at which the curve reaches the time is found by Newton's method,
and the height of the curve there is the progress of the motion.
-/

namespace Flipbook

/-- The easings that scripts can name. -/
inductive Easing
  | inCubic | outCubic | inExpo | outExpo
  deriving DecidableEq, Repr

def easingNames : List (String × Easing) :=
  [("easeInCubic", .inCubic), ("easeOutCubic", .outCubic), ("easeInExpo", .inExpo),
    ("easeOutExpo", .outExpo)]

def Easing.ofName? (name : String) : Option Easing :=
  easingNames.lookup name

/-- A curve from (0, 0) to (1, 1): its coordinates as cubic polynomials. The field `x` of a
polynomial is the coefficient of the third power and `w` the constant. -/
structure BezierCurve (α : Type) where
  time : Point α
  height : Point α

namespace BezierCurve

section

variable {α : Type} [Add α] [Mul α] [Neg α] [OfNat α 0] [OfNat α 1] [OfNat α 3] [OfNat α 6]

/-- The matrix that takes the four control values of a cubic Bézier curve to its coefficients. -/
def basis : Matrix α :=
  ⟨⟨-1, 3, -3, 1⟩, ⟨3, -6, 3, 0⟩, ⟨-3, 3, 0, 0⟩, ⟨1, 0, 0, 0⟩⟩

/-- The curve with the inner control points `(x1, y1)` and `(x2, y2)`. -/
def of (x1 y1 x2 y2 : α) : BezierCurve α where
  time := basis.apply ⟨0, x1, x2, 1⟩
  height := basis.apply ⟨0, y1, y2, 1⟩

def value (c : Point α) (t : α) : α :=
  ((c.x * t + c.y) * t + c.z) * t + c.w

def slope [OfNat α 2] (c : Point α) (t : α) : α :=
  (3 * c.x * t + 2 * c.y) * t + c.z

end

variable {α : Type} [Add α] [Sub α] [Mul α] [Div α] [Neg α]
variable [OfNat α 0] [OfNat α 1] [OfNat α 2] [OfNat α 3] [OfNat α 6] [OfScientific α]
variable [LT α] [LE α] [DecidableLT α] [DecidableLE α]

/-- Below this a slope counts as flat: 2 to the power of -23. -/
def flat : α := 1.1920928955078125e-7

/-- At most `n` steps of Newton's method towards the parameter at which the curve reaches a time,
each kept between 0 and 1. Where the curve is flat the search ends. -/
def search (c : BezierCurve α) (time : α) : Nat → α → α
  | 0, t => t
  | n + 1, t =>
    let slope := slope c.time t
    if slope < flat ∧ -flat < slope then t
    else search c time n (clamp 0 1 (t - (value c.time t - time) / slope))

/-- The height of the curve at a time. -/
def eval (c : BezierCurve α) (time : α) : α :=
  value c.height (c.search time 5 (clamp 0 1 time))

end BezierCurve

namespace Easing

variable {α : Type} [Add α] [Sub α] [Mul α] [Div α] [Neg α]
variable [OfNat α 0] [OfNat α 1] [OfNat α 2] [OfNat α 3] [OfNat α 6] [OfScientific α]
variable [LT α] [LE α] [DecidableLT α] [DecidableLE α]

def curve : Easing → BezierCurve α
  | inCubic => .of 0.33 0 0.68 1
  | outCubic => .of 0.33 1 0.68 1
  | inExpo => .of 0.7 0 0.84 0
  | outExpo => .of 0.16 1 0.3 1

/-- The progress of the motion at a progress of time. The ends are kept. -/
def apply (e : Easing) (progress : α) : α :=
  if progress ≤ 0 then 0 else if 1 ≤ progress then 1 else e.curve.eval progress

end Easing

end Flipbook

import Flipbook.Raster.Fragment

/-!
# Stepped lines

A line from pixel to pixel takes one step at a time. The error term tells after each step whether
the other axis has fallen behind. The depth grows by the same amount with every step.

The whole numbers on the way are those of a machine: `keep` is what it keeps of each.
-/

namespace Flipbook

/-- A pixel with a depth. -/
structure PixelPoint (α : Type) where
  x : Int
  y : Int
  depth : α
  deriving DecidableEq, Repr

namespace Line

/-- What stays the same along a line. -/
structure Course (α : Type) where
  /-- What is kept of a whole number, when one is computed. -/
  keep : Int → Int
  /-- The last pixel. -/
  endX : Int
  endY : Int
  dx : Int
  /-- The distance in `y`, negated. -/
  dy : Int
  /-- One pixel towards the end. -/
  stepX : Int
  stepY : Int
  /-- The depth gained by a step. -/
  stepDepth : α

/-- Where the line is. -/
structure State (α : Type) where
  x : Int
  y : Int
  depth : α
  /-- The error of the pixel, positive if `x` has fallen behind. -/
  error : Int
  deriving DecidableEq, Repr

variable {α : Type}

/-- The length of a line along its longer axis. -/
def stepCount (a b : PixelPoint α) : Nat :=
  max (b.x - a.x).natAbs (b.y - a.y).natAbs

def Course.of [Sub α] [Div α] [GridNumber α] (keep : Int → Int) (a b : PixelPoint α) : Course α :=
  let dx := keep (keep (b.x - a.x)).natAbs
  let dy := keep (-keep (keep (b.y - a.y)).natAbs)
  { keep := keep
    endX := b.x
    endY := b.y
    dx := dx
    dy := dy
    stepX := if a.x < b.x then 1 else -1
    stepY := if a.y < b.y then 1 else -1
    stepDepth := (b.depth - a.depth) / GridNumber.ofInt (max (max dx (keep (-dy))) 1) }

/-- The state before the first step. -/
def Course.start (c : Course α) (a : PixelPoint α) : State α :=
  ⟨a.x, a.y, a.depth, c.keep (c.dx + c.dy)⟩

/-- One step. The error is doubled once, before either axis moves. -/
def Course.step [Add α] (c : Course α) (s : State α) : State α :=
  let doubled := c.keep (2 * s.error)
  let alongX := c.dy ≤ doubled
  let alongY := doubled ≤ c.dx
  let error := if alongX then c.keep (s.error + c.dy) else s.error
  { x := if alongX then c.keep (s.x + c.stepX) else s.x
    y := if alongY then c.keep (s.y + c.stepY) else s.y
    depth := s.depth + c.stepDepth
    error := if alongY then c.keep (error + c.dx) else error }

/-- The last pixel is reached. -/
def Course.Arrived (c : Course α) (s : State α) : Prop :=
  s.x = c.endX ∧ s.y = c.endY

instance (c : Course α) (s : State α) : Decidable (c.Arrived s) :=
  inferInstanceAs (Decidable (_ ∧ _))

/-- The states from `s` until the last pixel is reached, at most `n` steps away. -/
def Course.walk [Add α] (c : Course α) : Nat → State α → List (State α)
  | 0, s => [s]
  | n + 1, s => if c.Arrived s then [s] else s :: c.walk n (c.step s)

/-- The number of values that three words can have together. A line whose column, row and error are
words has come back to an earlier state by then, and never ends. -/
def endless : Nat :=
  0x1000000000000000000000000000000000000000000000000

/-- More steps than a line takes, if it ends at all. -/
def patience (a b : PixelPoint α) : Nat :=
  max (stepCount a b) endless

variable [Add α] [Sub α] [Div α] [GridNumber α]

/-- The pixels of the line from `a` to `b`, both included. -/
def states (keep : Int → Int) (a b : PixelPoint α) : List (State α) :=
  let c := Course.of keep a b
  c.walk (patience a b) (c.start a)

def State.fragment (color : Color) (s : State α) : Fragment α :=
  ⟨s.x, s.y, s.depth, color⟩

def fragments (keep : Int → Int) (a b : PixelPoint α) (color : Color) : List (Fragment α) :=
  (states keep a b).map (State.fragment color)

/-! ### Without a list -/

variable {σ : Type}

/-- What `f` makes of the states of a walk, one after the other. -/
def Course.foldWalk (c : Course α) (f : σ → State α → σ) : Nat → State α → σ → σ
  | 0, s, r => f r s
  | n + 1, s, r => if c.Arrived s then f r s else c.foldWalk f n (c.step s) (f r s)

/-- What `f` makes of the fragments of a line, one after the other. -/
def fold (f : σ → Fragment α → σ) (keep : Int → Int) (a b : PixelPoint α) (color : Color) (r : σ) : σ :=
  let c := Course.of keep a b
  c.foldWalk (fun r s => f r (s.fragment color)) (patience a b) (c.start a) r

omit [Sub α] [Div α] [GridNumber α] in
theorem Course.foldWalk_eq (c : Course α) (f : σ → State α → σ) (n : Nat) (s : State α) (r : σ) :
    c.foldWalk f n s r = (c.walk n s).foldl f r := by
  induction n generalizing s r with
  | zero => rfl
  | succ n ih =>
    rw [foldWalk, walk]
    split
    · rfl
    · exact ih (c.step s) (f r s)

theorem fold_eq (f : σ → Fragment α → σ) (keep : Int → Int) (a b : PixelPoint α) (color : Color)
    (r : σ) : fold f keep a b color r = (fragments keep a b color).foldl f r := by
  rw [fold, Course.foldWalk_eq, fragments, List.foldl_map, states]

end Line

end Flipbook

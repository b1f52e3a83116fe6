import Flipbook.Geometry.Matrix

/-!
# Nested coordinate systems

The current transform and the ones saved around it. A transform that is applied acts on points
before the current one, so commands read from the outermost system to the innermost.
-/

namespace Flipbook

/-- The current transform and the saved ones, innermost first. -/
structure CoordinateStack (α : Type) where
  current : Matrix α
  saved : List (Matrix α)
  deriving DecidableEq, Repr

namespace CoordinateStack

variable {α : Type}

def start [OfNat α 0] [OfNat α 1] : CoordinateStack α :=
  ⟨.identity, []⟩

def push (s : CoordinateStack α) : CoordinateStack α :=
  { s with saved := s.current :: s.saved }

/-- Closes the current system. `none` if it is the outermost. -/
def pop? (s : CoordinateStack α) : Option (CoordinateStack α) :=
  match s.saved with
  | [] => none
  | outer :: rest => some ⟨outer, rest⟩

def transform [Add α] [Mul α] [Neg α] [OfNat α 0] (s : CoordinateStack α) (m : Matrix α) :
    CoordinateStack α :=
  { s with current := s.current.compose m }

/-- The number of systems that are open, the outermost included. -/
def depth (s : CoordinateStack α) : Nat :=
  s.saved.length + 1

end CoordinateStack

end Flipbook

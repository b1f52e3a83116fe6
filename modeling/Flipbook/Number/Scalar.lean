import Flipbook.Number.Binary

/-!
# The arithmetic of drawing

Geometry, shading and drawing are written once, over any type that has the operations they use.
A program runs them on binary32 numbers; the same definitions can be read over exact numbers.
-/

namespace Flipbook

/-- Numbers that can be placed on the grid of pixels. -/
class GridNumber (α : Type) where
  trunc : α → α
  /-- The integer obtained by dropping the fraction. -/
  toInt : α → Int
  ofInt : Int → α
  /-- Neither infinite nor NaN. -/
  isFinite : α → Bool
  /-- What the arithmetic on the grid keeps of a whole number. -/
  keep : Int → Int

/-- Numbers that are clipped in the wider arithmetic `β`. -/
class Widening (α : Type) (β : outParam Type) where
  widen : α → β
  /-- The number nearest to one of the wider arithmetic. -/
  narrow : β → α

/-- The functions that shading needs besides the field operations. -/
class ShadingNumber (α : Type) where
  sqrt : α → α
  /-- The fifth power, the sharpness of a highlight. -/
  fifthPower : α → α

instance : GridNumber Float32 where
  trunc x := .ofModel (.pack (Number.truncated .binary32 x.toModel.unpack))
  toInt x := Number.word x.toModel.unpack
  ofInt := Float32.ofInt
  isFinite := Float32.isFinite
  keep := Number.wrap

instance : GridNumber Float where
  trunc x := .ofModel (.pack (Number.truncated .binary64 x.toModel.unpack))
  toInt x := Number.word x.toModel.unpack
  ofInt := Float.ofInt
  isFinite := Float.isFinite
  keep := Number.wrap

instance : Widening Float32 Float where
  widen := Number.widen
  narrow := Number.narrow

instance : ShadingNumber Float32 where
  sqrt := Float32.sqrt
  fifthPower x := x.pow 5

variable {α : Type} [LT α] [LE α] [DecidableLT α] [DecidableLE α]

/-- The greater of two numbers. A number is preferred to NaN. -/
def greater (a b : α) : α :=
  if a < b then b else if a ≤ a then a else b

/-- The lesser of two numbers. A number is preferred to NaN. -/
def lesser (a b : α) : α :=
  if b < a then b else if a ≤ a then a else b

/-- The number moved into `[lo, hi]`. NaN stays NaN. -/
def clamp (lo hi a : α) : α :=
  if a < lo then lo else if hi < a then hi else a

end Flipbook

import Flipbook.Proofs.Number.Binary32

/-!
# Infinite numbers

What is too great for the format becomes infinite. An infinite number swallows the finite ones that are
added to it, and divided by one it stays infinite, so NaN comes of it only where a second infinite number
or a zero factor meets it.
-/

namespace Flipbook.Number

open Float.Model (UnpackedFloat)
open Float.Model.UnpackedFloat (Sign)

/-- The infinite number of a sign. -/
def IsInfinite (s : Sign) (x : Float32) : Prop :=
  x.toModel.unpack = .infinity s

variable {s : Sign} {x y : Float32}

theorem IsInfinite.numeric (infinite : IsInfinite s x) : x.isNaN = false := by
  show x.toModel.unpack.isNaN = false
  rw [infinite]
  rfl

theorem isFinite_or_isInfinite (numeric : x.isNaN = false) :
    x.isFinite = true ∨ ∃ s, IsInfinite s x := by
  change x.toModel.unpack.isNaN = false at numeric
  show x.toModel.unpack.isFinite = true ∨ ∃ s, x.toModel.unpack = .infinity s
  cases unpacked : x.toModel.unpack with
  | infinity s => exact .inr ⟨s, rfl⟩
  | notANumber =>
    rw [unpacked] at numeric
    cases numeric
  | zero _ => exact .inl rfl
  | finite _ _ _ _ => exact .inl rfl

/-- An operation whose result is infinite before it is packed. -/
theorem isInfinite_of_unpacked {f : UnpackedFloat} (infinite : f = .infinity s) :
    IsInfinite s (.ofModel (.pack f)) := by
  rw [infinite]
  exact unpack_packedInfinity s

theorem IsInfinite.add_finite (infinite : IsInfinite s x) (finite : y.isFinite = true) :
    IsInfinite s (x + y) := by
  refine isInfinite_of_unpacked ?_
  rw [infinite]
  have canonical := canonical_of_isFinite finite
  match y.toModel.unpack, canonical with
  | .zero _, _ | .finite .., _ => rfl

theorem IsInfinite.finite_add (finite : x.isFinite = true) (infinite : IsInfinite s y) :
    IsInfinite s (x + y) := by
  refine isInfinite_of_unpacked ?_
  rw [infinite]
  exact add_infinity (canonical_of_isFinite finite) s

theorem IsInfinite.add (first : IsInfinite s x) (last : IsInfinite s y) : IsInfinite s (x + y) := by
  refine isInfinite_of_unpacked ?_
  rw [first, last]
  cases s <;> rfl

theorem IsInfinite.div_finite (infinite : IsInfinite s x) (finite : y.isFinite = true) :
    ∃ t, IsInfinite t (x / y) := by
  have canonical := canonical_of_isFinite finite
  match unpacked : y.toModel.unpack, canonical with
  | .zero t, _ | .finite t .., _ =>
    refine ⟨s / t, isInfinite_of_unpacked ?_⟩
    rw [infinite, unpacked]
    rfl

/-- A part of infinitely many is nothing. -/
theorem div_infinite (finite : x.isFinite = true) (infinite : IsInfinite s y) :
    (x / y).isFinite = true ∧ exactValue (x / y) = 0 := by
  have canonical := canonical_of_isFinite finite
  have zero {f : UnpackedFloat} {t : Sign} (unpacked : f = .zero t) :
      RoundsTo 0 (.ofModel (.pack f)) := by
    rw [unpacked]
    exact .of_rounds (Canonical.rounds (f := .zero t) trivial)
  refine RoundsTo.zero ?_
  match unpacked : x.toModel.unpack, canonical with
  | .zero t, _ | .finite t .., _ =>
    refine zero (t := t / s) ?_
    rw [infinite, unpacked]
    rfl

/-! ### Numbers stay numbers -/

theorem isNaN_add_finite (numeric : x.isNaN = false) (finite : y.isFinite = true) :
    (x + y).isNaN = false := by
  rcases isFinite_or_isInfinite numeric with finite' | ⟨s, infinite⟩
  · exact (RoundsTo.add finite' finite).numeric
  · exact (infinite.add_finite finite).numeric

theorem isNaN_div_finite (numeric : x.isNaN = false) (finite : y.isFinite = true)
    (ne : exactValue y ≠ 0) : (x / y).isNaN = false := by
  rcases isFinite_or_isInfinite numeric with finite' | ⟨s, infinite⟩
  · exact (RoundsTo.div finite' ne).numeric
  · obtain ⟨t, infinite⟩ := infinite.div_finite finite
    exact infinite.numeric

end Flipbook.Number

import Flipbook.Proofs.Number.Order
import Flipbook.Proofs.Raster.Bounds
import Flipbook.Proofs.Raster.Interpolation
import Flipbook.Proofs.Run.Pictures

/-!
# The depths of a picture

A pixel takes a fragment unless it holds a nearer one, so its depth never falls, as long as there are
numbers to compare (`Rises.plot`). A fragment with NaN for its depth would be taken too, and then anything
behind it. Segments make no such fragment, nor do triangles with corners close together; with
corners too far apart for the format a triangle does (`far_corners_lower_depth`).
-/

namespace Flipbook

/-- No polygon that is filled has corners too far apart. The corners of those that face away or are
not finite may be anywhere. -/
def Call.Compact : Call → Prop
  | .polygons points _ _ => ∀ t ∈ Triangle.ofPoints points, ¬ t.normal.z ≤ 0 →
      (∀ p ∈ t.corners, p.isFinite = true) → Fill.Compact t
  | _ => True

namespace Picture

variable {p : Picture} {f : Fragment Float32} {c : Call} {depths later last : List Float32}

/-! ### Depths that rise -/

/-- No depth is NaN. -/
def Numeric (depths : List Float32) : Prop :=
  ∀ z ∈ depths, z.isNaN = false

/-- Pixel by pixel no depth is less than before, and none is NaN. -/
structure Rises (depths later : List Float32) : Prop where
  numeric : Numeric later
  le : List.Forall₂ (· ≤ ·) depths later

theorem Rises.refl (numeric : Numeric depths) : Rises depths depths where
  numeric := numeric
  le := List.forall₂_same.mpr fun z member => Number.le_refl_of_numeric (numeric z member)

theorem Rises.trans (numeric : Numeric depths) (first : Rises depths later)
    (second : Rises later last) : Rises depths last where
  numeric := second.numeric
  le := by
    rw [List.forall₂_iff_get]
    obtain ⟨length, le⟩ := List.forall₂_iff_get.mp first.le
    obtain ⟨length', le'⟩ := List.forall₂_iff_get.mp second.le
    refine ⟨length.trans length', fun i lower lower' => ?_⟩
    exact Number.le_trans_of_numeric (numeric _ (List.get_mem ..))
      (first.numeric _ (List.get_mem ..)) (second.numeric _ (List.get_mem ..))
      (le i lower (length ▸ lower)) (le' i (length ▸ lower) lower')

/-- A depth in one place that is not less than the one before. -/
theorem Rises.set {i : Nat} {z : Float32} (numeric : Numeric depths) (inside : i < depths.length)
    (numeric' : z.isNaN = false) (nearer : depths[i] ≤ z) : Rises depths (depths.set i z) where
  numeric := by
    intro w member
    rcases List.mem_or_eq_of_mem_set member with old | rfl
    · exact numeric w old
    · exact numeric'
  le := by
    rw [List.forall₂_iff_get]
    refine ⟨List.length_set.symm, fun j lower lower' => ?_⟩
    rw [List.get_eq_getElem, List.get_eq_getElem, List.getElem_set]
    split
    · next same =>
      subst same
      exact nearer
    · exact Number.le_refl_of_numeric (numeric _ (List.getElem_mem _))

/-! ### Fragments -/

theorem Rises.plot (numeric : Numeric p.depths) (real : f.depth.isNaN = false) :
    Rises p.depths (p.plot f).depths := by
  unfold Picture.plot
  split
  · exact .refl numeric
  · next i here =>
    split
    · exact .refl numeric
    · next nearest =>
      have inside : i.val < p.depths.length := by
        rw [length_depths]
        exact i.isLt
      have stored : p.depths[i.val] = p.pixels[i].depth := by simp [Picture.depths]
      have real' : p.pixels[i].depth.isNaN = false := stored ▸ numeric _ (List.getElem_mem _)
      have set : depths { p with pixels := p.pixels.set i ⟨store p.maxColor f.color, f.depth⟩ } =
          p.depths.set i f.depth := by
        simp [Picture.depths, Vector.toList_set, List.map_set]
      rw [set]
      refine .set numeric inside real ?_
      rw [stored]
      exact (Number.not_lt_iff_le real real').mp nearest

theorem Rises.plotAll {fragments : List (Fragment Float32)} (numeric : Numeric p.depths)
    (real : ∀ f ∈ fragments, f.depth.isNaN = false) : Rises p.depths (p.plotAll fragments).depths := by
  induction fragments generalizing p with
  | nil => exact .refl numeric
  | cons f rest ih =>
    have step : Rises p.depths (p.plot f).depths := .plot numeric (real f List.mem_cons_self)
    exact step.trans numeric (ih step.numeric fun g member => real g (List.mem_cons_of_mem f member))

/-! ### Calls -/

theorem numeric_clear (p : Picture) : Numeric p.clear.depths := by
  have background : p.clear.depths = List.replicate (p.size.width * p.size.height) farthest := by
    simp [Picture.depths, clear, new]
  rw [background]
  intro z member
  rw [List.eq_of_mem_replicate member]
  decide

theorem size_after (p : Picture) (c : Call) : (p.after c).size = p.size :=
  show (p.after c).clear.size = p.clear.size from congrArg size (p.clear_after c)

/-- Depths take four bytes each, so no picture has sides that are too long for the format. -/
theorem sides_lt {width height : Nat} (fits : 4 * (width * height) < 2 ^ 63)
    (area : 0 < width * height) : width < 2 ^ 61 ∧ height < 2 ^ 61 := by
  have first := Nat.le_mul_of_pos_right width (Nat.pos_of_mul_pos_left area)
  have last := Nat.le_mul_of_pos_left height (Nat.pos_of_mul_pos_right area)
  omega

theorem Rises.after (fits : 4 * (p.size.width * p.size.height) < 2 ^ 63) (numeric : Numeric p.depths)
    (compact : c.Compact) (stays : c ≠ .clear) : Rises p.depths (p.after c).depths := by
  rcases Nat.eq_zero_or_pos (p.size.width * p.size.height) with noArea | area
  · have empty : p.depths = [] := List.length_eq_zero_iff.mp ((length_depths p).trans noArea)
    have empty' : (p.after c).depths = [] := by
      rw [← List.length_eq_zero_iff, length_depths, size_after, noArea]
    rw [empty, empty']
    exact .refl (List.forall_mem_nil _)
  obtain ⟨fewX, fewY⟩ := sides_lt fits area
  cases c with
  | clear => exact absurd rfl stays
  | polygons points lighting material =>
    refine .plotAll numeric fun f member => ?_
    obtain ⟨t, among, member⟩ := List.mem_flatMap.mp member
    unfold Triangle.fragments at member
    dsimp only at member
    split at member
    · cases member
    · next faces => exact Fill.isNaN_depth fewX fewY (compact t among faces) member
  | lines points color =>
    refine .plotAll numeric fun f member => ?_
    obtain ⟨e, -, member⟩ := List.mem_flatMap.mp member
    exact Segment.isNaN_depth fewX fewY member
  | display | save | saveFrame | assemble => exact .refl numeric

section

variable {calls : List Call} (fits : 4 * (p.size.width * p.size.height) < 2 ^ 63)
variable (numeric : Numeric p.depths) (compact : ∀ c ∈ calls, c.Compact)
include fits numeric compact

theorem numeric_calls : Numeric (calls.foldl after p).depths := by
  induction calls generalizing p with
  | nil => exact numeric
  | cons c rest ih =>
    refine ih (size_after p c ▸ fits) ?_ fun d member => compact d (List.mem_cons_of_mem c member)
    by_cases cleared : c = .clear
    · rw [cleared]
      exact numeric_clear p
    · exact (Rises.after fits numeric (compact c List.mem_cons_self) cleared).numeric

theorem rises_calls (drawing : Call.clear ∉ calls) : Rises p.depths (calls.foldl after p).depths := by
  induction calls generalizing p with
  | nil => exact .refl numeric
  | cons c rest ih =>
    rw [List.mem_cons, not_or] at drawing
    obtain ⟨first, later⟩ := drawing
    have step := Rises.after fits numeric (compact c List.mem_cons_self) (Ne.symm first)
    exact step.trans numeric (ih (size_after p c ▸ fits) step.numeric
      (fun d member => compact d (List.mem_cons_of_mem c member)) later)

end

/-! ### The law of depths -/

/-- Whatever is drawn, NaN is stored nowhere, and from one point of a sequence of calls to a later one
with no clearing between them no pixel's depth falls. The polygons that are filled must not have corners
too far apart; everything else of the points, the lights and the materials may be any number, infinite
or NaN. -/
theorem depths_never_fall (p : Picture) (before later : List Call)
    (fits : 4 * (p.size.width * p.size.height) < 2 ^ 63) (numeric : Numeric p.depths)
    (compact : ∀ c ∈ before ++ later, c.Compact) :
    Numeric ((before ++ later).foldl after p).depths ∧
      (Call.clear ∉ later → List.Forall₂ (· ≤ ·) (before.foldl after p).depths
        ((before ++ later).foldl after p).depths) := by
  refine ⟨numeric_calls fits numeric compact, fun drawing => ?_⟩
  have size : (before.foldl after p).size = p.size :=
    show (before.foldl after p).clear.size = p.clear.size from
      congrArg Picture.size (p.clear_foldl_after before)
  have numeric' : Numeric (before.foldl after p).depths :=
    numeric_calls fits numeric fun c member => compact c (List.mem_append_left later member)
  rw [List.foldl_append]
  exact (rises_calls (size ▸ fits) numeric'
    (fun c member => compact c (List.mem_append_right before member)) drawing).le

/-- A polygon that is taller than the numbers of the format, and a line of NaN after it. -/
theorem tall_polygon_keeps_depths :
    let p : Picture := .new ⟨1, 1⟩ 255 ⟨0, 0, 0⟩
    let tall : Call := .polygons [⟨0, -3e38, 5, 1⟩, ⟨3, -3e38, 5, 1⟩, ⟨0, 3e38, 5, 1⟩]
      ⟨⟨9, 9, 9⟩, []⟩ ⟨⟨1, 1, 1⟩, ⟨0, 0, 0⟩, ⟨0, 0, 0⟩⟩
    let line : Call := .lines [⟨-3e38, 0, -3e38, 1⟩, ⟨3e38, 0, 3e38, 1⟩, ⟨0, 0, 0 / 0, 1⟩, ⟨0, 0, 0, 1⟩]
      ⟨9, 9, 9⟩
    (4 * (p.size.width * p.size.height) < 2 ^ 63 ∧ Numeric p.depths ∧
        (∀ c ∈ [tall] ++ [line], c.Compact) ∧ Call.clear ∉ [line]) ∧
      Numeric (([tall] ++ [line]).foldl after p).depths ∧
      List.Forall₂ (· ≤ ·) ([tall].foldl after p).depths (([tall] ++ [line]).foldl after p).depths := by
  intro p tall line
  have numeric : Numeric p.depths := numeric_clear p
  have small (n : ℕ) (few : n ≤ 5) : |Number.exactValue (Float32.ofNat n)| ≤ 2 ^ 126 := by
    have few' : (n : ℚ) ≤ 5 := by exact_mod_cast few
    rw [(Number.exactValue_ofNat (few.trans (by norm_num))).2, Nat.abs_cast]
    linarith
  have compact : ∀ c ∈ [tall] ++ [line], c.Compact := by
    refine List.forall_mem_cons.mpr ⟨fun t among _ finite => ?_, List.forall_mem_singleton.mpr trivial⟩
    cases List.mem_singleton.mp among
    refine .of_small finite ?_
    simp only [Triangle.corners, List.forall_mem_cons]
    exact ⟨⟨small 0 (by decide), small 5 le_rfl⟩, ⟨small 3 (by decide), small 5 le_rfl⟩,
      ⟨small 0 (by decide), small 5 le_rfl⟩, List.forall_mem_nil _⟩
  have drawing : Call.clear ∉ [line] := by simp [line]
  obtain ⟨numbers, rises⟩ := depths_never_fall p [tall] [line] (by decide) numeric compact
  exact ⟨⟨by decide, numeric, compact, drawing⟩, numbers, rises drawing⟩

/-- A polygon over the one pixel of a small picture, with the given depths at its corners. -/
def overPixel (first second third : Float32) : Call :=
  .polygons [⟨0, 0, first, 1⟩, ⟨3, 0, second, 1⟩, ⟨0, 3, third, 1⟩] ⟨⟨9, 9, 9⟩, []⟩
    ⟨⟨1, 1, 1⟩, ⟨0, 0, 0⟩, ⟨0, 0, 0⟩⟩

/-- Between corners so far apart that their difference is infinite, NaN is stored, and after that a
farther depth. -/
theorem far_corners_lower_depth :
    let p : Picture := .new ⟨1, 1⟩ 255 ⟨0, 0, 0⟩
    let near := overPixel 5 5 5
    let steep := overPixel (-3e38) 0 3e38
    let far := overPixel (-5) (-5) (-5)
    Numeric p.depths ∧ ¬ Numeric ([near, steep].foldl after p).depths ∧
      ¬ List.Forall₂ (· ≤ ·) ([near].foldl after p).depths ([near, steep, far].foldl after p).depths := by
  intro p near steep far
  have first : ([near].foldl after p).depths = [5] := by decide +kernel
  have third : ([near, steep, far].foldl after p).depths = [-5] := by decide +kernel
  refine ⟨numeric_clear p, ?_, ?_⟩
  · unfold Numeric
    decide +kernel
  · rw [first, third]
    decide +kernel

end Picture

end Flipbook

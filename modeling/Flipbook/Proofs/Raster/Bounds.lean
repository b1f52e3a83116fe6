import Flipbook.Proofs.Number.Binary64
import Flipbook.Proofs.Raster.Clipping
import Flipbook.Proofs.Raster.Gradient

/-!
# How far clipping leads

Clipping is done in the wider arithmetic, where nothing comes near the greatest number. A move takes an
end to a place between the two ends, up to its roundings, so all the moves together leave it as good as
where it was (`Near.passes`), and its depth is finite when it is narrowed (`isFinite_depth`).
-/

namespace Flipbook

namespace Clip

open Number

variable {M x : ℚ} {a b border t : Float} {p q p' q' : Vec3 Float} {maxX maxY : Float}

/-! ### Sizes -/

/-- A finite wide number of a size at most `M`. -/
structure Bounded (M : ℚ) (a : Float) : Prop where
  finite : a.isFinite = true
  small : |wideValue a| ≤ M

/-- The three coordinates of a place are finite and of sizes at most `M`. -/
structure Near (M : ℚ) (p : Vec3 Float) : Prop where
  x : Bounded M p.x
  y : Bounded M p.y
  z : Bounded M p.z

theorem Bounded.mono {N : ℚ} (bounded : Bounded M a) (le : M ≤ N) : Bounded N a :=
  ⟨bounded.finite, bounded.small.trans le⟩

theorem Near.mono {N : ℚ} (near : Near M p) (le : M ≤ N) : Near N p :=
  ⟨near.x.mono le, near.y.mono le, near.z.mono le⟩

/-- The error of every operation of a move. -/
theorem rounded_near (rounds : RoundsToWide x a) (small : |x| ≤ 2 ^ 133) :
    a.isFinite = true ∧ |wideValue a - x| ≤ 2 ^ 81 := by
  obtain ⟨finite, error⟩ := rounds.nearly (small.trans (by norm_num [ample]))
  refine ⟨finite, error.trans ?_⟩
  rw [ample]
  linarith

/-! ### Parts of the way -/

/-- A part of the way from one end to the other, up to a rounding. -/
structure Portion (t : Float) : Prop where
  finite : t.isFinite = true
  low : -(1 / 2 ^ 50) ≤ wideValue t
  high : wideValue t ≤ 1 + 1 / 2 ^ 50

/-- What lies between zero and a number is a part of it, also when both are off by a rounding. -/
theorem quotient_of_near {n d n' d' : ℚ} (ne : d ≠ 0) (low : 0 ≤ n / d) (high : n / d ≤ 1)
    (near : |n' - n| ≤ |n| / 2 ^ 53) (near' : |d' - d| ≤ |d| / 2 ^ 53) :
    d' ≠ 0 ∧ 0 ≤ n' / d' ∧ n' / d' ≤ 1 + 1 / 2 ^ 51 := by
  have whole : n = n / d * d := (div_mul_cancel₀ n ne).symm
  rcases lt_or_gt_of_ne ne with negative | positive
  · have below : n ≤ 0 := whole ▸ mul_nonpos_of_nonneg_of_nonpos low negative.le
    have above : d ≤ n := (div_le_one_of_neg negative).mp high
    rw [abs_of_nonpos below, abs_le] at near
    rw [abs_of_neg negative, abs_le] at near'
    have negative' : d' < 0 := by linarith
    refine ⟨negative'.ne, div_nonneg_of_nonpos (by linarith) negative'.le, ?_⟩
    rw [div_le_iff_of_neg negative']
    linarith
  · have above : 0 ≤ n := whole ▸ mul_nonneg low positive.le
    have below : n ≤ d := (div_le_one positive).mp high
    rw [abs_of_nonneg above, abs_le] at near
    rw [abs_of_pos positive, abs_le] at near'
    have positive' : 0 < d' := by linarith
    refine ⟨positive'.ne', div_nonneg (by linarith) positive'.le, ?_⟩
    rw [div_le_iff₀ positive']
    linarith

/-- A border between two ends, not at the first of them, is reached after a part of the way. -/
theorem portion_of_between (M_le : M ≤ 2 ^ 129) (ha : Bounded M a) (hb : Bounded M b)
    (hc : Bounded M border)
    (between : wideValue a < wideValue border ∧ wideValue border ≤ wideValue b ∨
      wideValue border < wideValue a ∧ wideValue b ≤ wideValue border) :
    Portion ((border - a) / (b - a)) := by
  obtain ⟨finiteA, smallA⟩ := ha
  obtain ⟨finiteB, smallB⟩ := hb
  obtain ⟨finiteC, smallC⟩ := hc
  rw [abs_le] at smallA smallB smallC
  have small : |wideValue border - wideValue a| ≤ ample := abs_le.mpr (by
    constructor <;> (rw [ample]; linarith))
  have small' : |wideValue b - wideValue a| ≤ ample := abs_le.mpr (by
    constructor <;> (rw [ample]; linarith))
  have near := difference_error finiteC finiteA small
  have near' := difference_error finiteB finiteA small'
  have finite := (RoundsToWide.sub finiteC finiteA).finite small
  have ratio : wideValue b - wideValue a ≠ 0 ∧
      0 ≤ (wideValue border - wideValue a) / (wideValue b - wideValue a) ∧
      (wideValue border - wideValue a) / (wideValue b - wideValue a) ≤ 1 := by
    rcases between with ⟨up, beyond⟩ | ⟨down, beyond⟩
    · have crosses := crosses_up up beyond
      exact ⟨crosses.apart, crosses.nonneg, crosses.le_one⟩
    · have crosses := crosses_down down beyond
      exact ⟨crosses.apart, crosses.nonneg, crosses.le_one⟩
  obtain ⟨ne, low, high⟩ := ratio
  obtain ⟨ne', low', high'⟩ := quotient_of_near ne low high near near'
  obtain ⟨finite', error⟩ := (RoundsToWide.div finite ne').nearly
    (abs_le.mpr ⟨by rw [ample]; linarith, by rw [ample]; linarith⟩)
  rw [abs_of_nonneg low', ample, abs_le] at error
  exact ⟨finite', by linarith, by linarith⟩

theorem abs_lerp_le {c e t : ℚ} (first : |c| ≤ M) (last : |e| ≤ M) (low : -(1 / 2 ^ 50) ≤ t)
    (high : t ≤ 1 + 1 / 2 ^ 50) : |c + (e - c) * t| ≤ M + M / 2 ^ 49 := by
  have parts : |1 - t| + |t| ≤ 1 + 1 / 2 ^ 49 := by
    rcases abs_cases (1 - t) with ⟨rest, -⟩ | ⟨rest, -⟩ <;>
      rcases abs_cases t with ⟨part, -⟩ | ⟨part, -⟩ <;> (rw [rest, part]; linarith)
  have M_nonneg : 0 ≤ M := (abs_nonneg c).trans first
  calc |c + (e - c) * t| = |(1 - t) * c + t * e| := by congr 1; ring
    _ ≤ |1 - t| * |c| + |t| * |e| := by
      rw [← abs_mul, ← abs_mul]
      exact abs_add_le _ _
    _ ≤ |1 - t| * M + |t| * M := by gcongr
    _ = (|1 - t| + |t|) * M := by ring
    _ ≤ (1 + 1 / 2 ^ 49) * M := by gcongr
    _ = M + M / 2 ^ 49 := by ring

/-- A part of the way leads beyond neither end by more than the roundings. -/
theorem Bounded.along (M_le : M ≤ 2 ^ 129) (ha : Bounded M a) (hb : Bounded M b) (part : Portion t) :
    Bounded (M + 2 ^ 84) (a + (b - a) * t) := by
  obtain ⟨finiteA, smallA⟩ := ha
  obtain ⟨finiteB, smallB⟩ := hb
  obtain ⟨finiteT, low, high⟩ := part
  have exact := abs_lerp_le smallA smallB low high
  have part : |wideValue t| ≤ 2 := abs_le.mpr ⟨by linarith, by linarith⟩
  rw [abs_le] at smallA smallB
  obtain ⟨finiteD, errorD⟩ := rounded_near (RoundsToWide.sub finiteB finiteA)
    (abs_le.mpr ⟨by linarith, by linarith⟩)
  have smallD : |wideValue (b - a)| ≤ 2 ^ 131 := by
    rw [abs_le] at errorD ⊢
    constructor <;> linarith
  have smallP : |wideValue (b - a) * wideValue t| ≤ 2 ^ 132 := by
    rw [abs_mul]
    calc |wideValue (b - a)| * |wideValue t| ≤ 2 ^ 131 * 2 := by gcongr
      _ = 2 ^ 132 := by norm_num
  obtain ⟨finiteP, errorP⟩ := rounded_near (RoundsToWide.mul finiteD finiteT)
    (smallP.trans (by norm_num))
  have smallS : |wideValue a + wideValue ((b - a) * t)| ≤ 2 ^ 133 := by
    rw [abs_le] at errorP smallP ⊢
    constructor <;> linarith
  obtain ⟨finiteS, errorS⟩ := rounded_near (RoundsToWide.add finiteA finiteP) smallS
  have scaled : |wideValue (b - a) * wideValue t - (wideValue b - wideValue a) * wideValue t| ≤
      2 ^ 82 := by
    rw [← sub_mul, abs_mul]
    calc |wideValue (b - a) - (wideValue b - wideValue a)| * |wideValue t| ≤ 2 ^ 81 * 2 := by gcongr
      _ = 2 ^ 82 := by norm_num
  refine ⟨finiteS, ?_⟩
  rw [abs_le] at *
  constructor <;> linarith

/-! ### Moves -/

theorem Near.along (M_le : M ≤ 2 ^ 129) (first : Near M p) (last : Near M q) (part : Portion t) :
    Near (M + 2 ^ 84) (along p q t) where
  x := .along M_le first.x last.x part
  y := .along M_le first.y last.y part
  z := .along M_le first.z last.z part

/-- The place that a place with finite coordinates stands for. -/
def exactly (p : Vec3 Float) : Vec3 ℚ :=
  ⟨wideValue p.x, wideValue p.y, wideValue p.z⟩

theorem Bounded.zero (M_nonneg : 0 ≤ M) : Bounded M 0 := by
  refine ⟨by decide, ?_⟩
  rwa [wideValue_zero, abs_zero]

section

variable (right : Bounded M maxX) (above : Bounded M maxY) (first : Near M p)
include right above first

theorem region_exactly : region maxX maxY p = region (wideValue maxX) (wideValue maxY) (exactly p) := by
  have zero : Bounded M 0 := .zero ((abs_nonneg _).trans right.small)
  rw [region, region, Region.mk.injEq]
  refine ⟨?_, ?_, ?_, ?_⟩
  · exact decide_eq_decide.mpr (lt_iff_wideValue first.x.finite zero.finite)
  · exact decide_eq_decide.mpr (lt_iff_wideValue right.finite first.x.finite)
  · exact decide_eq_decide.mpr (lt_iff_wideValue first.y.finite zero.finite)
  · exact decide_eq_decide.mpr (lt_iff_wideValue above.finite first.y.finite)

/-- A move to a border leaves an end between the two ends, up to the roundings. -/
theorem Near.moveToBorder (M_le : M ≤ 2 ^ 129) (last : Near M q)
    (movable : Movable (wideValue maxX) (wideValue maxY) (exactly p) (exactly q)) :
    Near (M + 2 ^ 84) (moveToBorder maxX maxY (region maxX maxY p) p q) := by
  obtain ⟨outside, apart⟩ := movable
  rw [share_iff] at apart
  have more : M ≤ M + 2 ^ 84 := by linarith
  have zero : Bounded M 0 := .zero ((abs_nonneg _).trans right.small)
  have moved {border t : Float} (lands : Bounded M border) (part : Portion t) :
      Near (M + 2 ^ 84) { Clip.along p q t with x := border } ∧
        Near (M + 2 ^ 84) { Clip.along p q t with y := border } := by
    obtain ⟨x, y, z⟩ := Near.along M_le first last part
    exact ⟨⟨lands.mono more, y, z⟩, ⟨x, lands.mono more, z⟩⟩
  simp only [Clip.moveToBorder, region, decide_eq_true_eq, lt_iff_wideValue first.x.finite zero.finite,
    lt_iff_wideValue right.finite first.x.finite, lt_iff_wideValue first.y.finite zero.finite]
  split
  · next here =>
    have there := not_lt.mp fun beyond => apart (.inl ⟨here, beyond⟩)
    exact (moved zero (portion_of_between M_le first.x last.x zero (.inl ⟨here, there⟩))).1
  split
  · next here =>
    have there := not_lt.mp fun beyond => apart (.inr (.inl ⟨here, beyond⟩))
    exact (moved right (portion_of_between M_le first.x last.x right (.inr ⟨here, there⟩))).1
  split
  · next here =>
    have there := not_lt.mp fun beyond => apart (.inr (.inr (.inl ⟨here, beyond⟩)))
    exact (moved zero (portion_of_between M_le first.y last.y zero (.inl ⟨here, there⟩))).2
  · next left right' below =>
    have here : wideValue maxY < wideValue p.y := not_le.mp fun inside =>
      outside ⟨⟨not_lt.mp left, not_lt.mp right'⟩, not_lt.mp below, inside⟩
    have there := not_lt.mp fun beyond => apart (.inr (.inr (.inr ⟨here, beyond⟩)))
    exact (moved above (portion_of_between M_le first.y last.y above (.inr ⟨here, there⟩))).2

end

/-- The ends that are left after some moves are where the first ends were, up to the roundings. -/
theorem Near.passes (n : Nat) (M_le : M + n * 2 ^ 84 ≤ 2 ^ 129) (right : Bounded M maxX)
    (above : Bounded M maxY) (first : Near M p) (last : Near M q)
    (clipped : passes maxX maxY n p q = some (p', q')) :
    Near (M + n * 2 ^ 84) p' ∧ Near (M + n * 2 ^ 84) q' := by
  induction n generalizing M p q with
  | zero => cases clipped
  | succ n ih =>
    push_cast at M_le ⊢
    have some_passes : (0 : ℚ) ≤ n * 2 ^ 84 := by positivity
    have small : M ≤ 2 ^ 129 := by linarith
    have more : M ≤ M + 2 ^ 84 := by linarith
    have onward : M + (n + 1) * 2 ^ 84 = M + 2 ^ 84 + n * 2 ^ 84 := by ring
    have still : M ≤ M + (n + 1) * 2 ^ 84 := by linarith
    rw [onward] at M_le
    have region_p := region_exactly right above first
    have region_q := region_exactly right above last
    rw [Clip.passes] at clipped
    split at clipped
    · cases clipped
      exact ⟨first.mono still, last.mono still⟩
    next outside =>
    split at clipped
    · cases clipped
    next apart =>
    rw [region_p, region_q] at outside apart
    simp only [Bool.and_eq_true, isInside_iff] at outside
    split at clipped
    · next beyond =>
      rw [Bool.not_eq_true', ← Bool.not_eq_true, region_p, isInside_iff] at beyond
      have moved := Near.moveToBorder right above first small last ⟨beyond, apart⟩
      rw [onward]
      exact ih M_le (right.mono more) (above.mono more) moved (last.mono more) clipped
    · next inside =>
      rw [Bool.not_eq_true', Bool.not_eq_false, region_p, isInside_iff] at inside
      have movable : Movable (wideValue maxX) (wideValue maxY) (exactly q) (exactly p) :=
        ⟨fun covers => outside ⟨inside, covers⟩, fun share => apart (share_comm.mp share)⟩
      have moved := Near.moveToBorder right above last small first movable
      rw [onward]
      exact ih M_le (right.mono more) (above.mono more) (first.mono more) moved clipped

end Clip

namespace Segment

open Number Clip

variable {size : Size} {a b : Point Float32} {p q : Vec3 Float} {color : Color}
variable {f : Fragment Float32}

/-- Where a segment is left by its clipping. -/
def reach : ℚ :=
  limit + 8 * 2 ^ 84

theorem bounded_widen {x : Float32} (finite : x.isFinite = true) : Bounded limit (widen x) := by
  obtain ⟨finite', value⟩ := widen_eq finite
  refine ⟨finite', ?_⟩
  rw [value]
  exact exactValue_le_limit finite

theorem bounded_border {n : Nat} (few : n < 2 ^ 61) :
    Bounded limit (GridNumber.ofInt n - 1 : Float) := by
  have some_pixels : (0 : ℚ) ≤ n := Nat.cast_nonneg n
  have few : (n : ℚ) ≤ 2 ^ 61 := by exact_mod_cast few.le
  obtain ⟨finite, error⟩ := rounded_near (RoundsToWide.ofNat n)
    (abs_le.mpr ⟨by linarith, by linarith⟩)
  rw [abs_le] at error
  obtain ⟨finite', error'⟩ := rounded_near (RoundsToWide.sub finite (by decide : (1 : Float).isFinite = true))
    (abs_le.mpr (by rw [wideValue_one]; constructor <;> linarith))
  rw [wideValue_one, abs_le] at error'
  refine ⟨finite', abs_le.mpr ?_⟩
  rw [limit]
  show _ ≤ wideValue (Float.ofNat n - 1) ∧ wideValue (Float.ofNat n - 1) ≤ _
  constructor <;> linarith

theorem near_clip (fewX : size.width < 2 ^ 61) (fewY : size.height < 2 ^ 61)
    (clipped : clip size a b = some (p, q)) : Near reach p ∧ Near reach q := by
  rw [clip] at clipped
  dsimp only at clipped
  split at clipped
  · next finite =>
    simp only [Point.isFinite, Bool.and_eq_true] at finite
    obtain ⟨⟨⟨ax, ay⟩, az⟩, ⟨bx, bY⟩, bz⟩ := finite
    exact Near.passes 8 (by norm_num [limit]) (bounded_border fewX) (bounded_border fewY)
      ⟨bounded_widen ax, bounded_widen ay, bounded_widen az⟩
      ⟨bounded_widen bx, bounded_widen bY, bounded_widen bz⟩ clipped
  · cases clipped

/-- No depth of a clipped end is too great for the narrower format. -/
theorem isFinite_depth (near : Near reach p) : (pixel p : PixelPoint Float32).depth.isFinite = true := by
  show (narrow p.z).isFinite = true
  refine (RoundsTo.narrow near.z.finite).bounded (near.z.small.trans_lt ?_)
  rw [reach]
  linarith

/-- No fragment of a segment has NaN for its depth, wherever its ends are. -/
theorem isNaN_depth (fewX : size.width < 2 ^ 61) (fewY : size.height < 2 ^ 61)
    (member : f ∈ fragments size a b color) : f.depth.isNaN = false := by
  rw [fragments] at member
  split at member
  · next p q clipped =>
    obtain ⟨first, last⟩ := near_clip fewX fewY clipped
    exact Line.isNaN_depth (isFinite_depth first) (isFinite_depth last) member
  · cases member

end Segment

end Flipbook

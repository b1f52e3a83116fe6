import Flipbook.Proofs.Number.Infinite
import Flipbook.Proofs.Number.Truncation
import Flipbook.Proofs.Raster.Filling

/-!
# Rounded filling

The fill of a triangle as it is computed. The part of its way that an edge has made in a row is rounded,
but never beyond either end (`progress_portion`). So long as the differences of the corners are numbers of
the format, with some room for their roundings, the sides stay finite (`Tame.crossings`), and no
depth between them is NaN (`isNaN_depth`).
-/

namespace Flipbook.Fill

open Number

variable {lo hi h t u v : Float32} {p q : Point Float32}

/-! ### Parts of the way -/

/-- A part of the way from one place to another. -/
structure Portion (t : Float32) : Prop where
  finite : t.isFinite = true
  low : 0 ≤ exactValue t
  high : exactValue t ≤ 1

/-- The number of rows or columns from one to another, both included. What does not fit is infinite. -/
theorem count_cases (hlo : lo.isFinite = true) (hhi : hi.isFinite = true)
    (le : exactValue lo ≤ exactValue hi) :
    (∃ s, IsInfinite s (hi - lo + 1)) ∨ (hi - lo).isFinite = true ∧ (hi - lo + 1).isFinite = true ∧
      1 ≤ exactValue (hi - lo + 1) ∧ exactValue (hi - lo) ≤ exactValue (hi - lo + 1) := by
  have one : (1 : Float32).isFinite = true := by decide
  have difference := RoundsTo.sub hhi hlo
  rcases isFinite_or_isInfinite difference.numeric with finite | ⟨s, infinite⟩
  · refine .inr ⟨finite, ?_⟩
    have nonneg := difference.ge finite onGrid_zero (sub_nonneg.mpr le)
    have sum := RoundsTo.add finite one
    rw [exactValue_one] at sum
    have bounded : (hi - lo + 1).isFinite = true := by
      refine sum.bounded ?_
      rw [abs_of_nonneg (by linarith)]
      linarith [(abs_le.mp (exactValue_le_limit finite)).2]
    exact ⟨bounded, sum.ge bounded onGrid_one (by linarith),
      sum.ge bounded (onGrid_exactValue finite) (by linarith)⟩
  · exact .inl ⟨s, infinite.add_finite one⟩

/-- The part of its way that an edge has made in a row between its ends. -/
theorem progress_portion (hlo : lo.isFinite = true) (hhi : hi.isFinite = true)
    (hh : h.isFinite = true) (low : exactValue lo ≤ exactValue h) (high : exactValue h ≤ exactValue hi)
    (small : exactValue h ≤ 2 ^ 61) : Portion ((h - lo) / (hi - lo + 1)) := by
  have difference := RoundsTo.sub hh hlo
  have finite : (h - lo).isFinite = true := by
    refine difference.bounded ?_
    rw [abs_of_nonneg (by linarith)]
    linarith [(abs_le.mp (exactValue_le_limit hlo)).1]
  have nonneg := difference.ge finite onGrid_zero (sub_nonneg.mpr low)
  rcases count_cases hlo hhi (low.trans high) with ⟨s, infinite⟩ | ⟨whole, finite', atLeast, more⟩
  · obtain ⟨bounded, isZero⟩ := div_infinite finite infinite
    exact ⟨bounded, isZero.ge, isZero.le.trans zero_le_one⟩
  · have less : exactValue (h - lo) ≤ exactValue (hi - lo + 1) :=
      (exactValue_sub_le_sub hh hhi hlo high finite whole).trans more
    have quotient := RoundsTo.div (y := hi - lo + 1) finite (by linarith)
    have below : exactValue (h - lo) / exactValue (hi - lo + 1) ≤ 1 :=
      div_le_one_of_le₀ less (by linarith)
    have above : 0 ≤ exactValue (h - lo) / exactValue (hi - lo + 1) := div_nonneg nonneg (by linarith)
    have bounded : ((h - lo) / (hi - lo + 1)).isFinite = true := by
      refine quotient.finite ?_
      rw [abs_of_nonneg above, limit]
      linarith
    exact ⟨bounded, quotient.ge bounded onGrid_zero above, quotient.le bounded onGrid_one below⟩

/-! ### Places on an edge -/

/-- A millionth less than the greatest finite number. -/
def widest : ℚ :=
  (2 ^ 20 - 1) * 2 ^ 108

/-- The difference of two numbers is a number of the format with some room to round it, and so is what
the rounded difference leads to from the first of them. -/
structure Close (u v : Float32) : Prop where
  apart : |exactValue v - exactValue u| ≤ widest
  within : |exactValue v| + |exactValue v - exactValue u| / 2 ^ 24 < limit + 2 ^ 103

theorem Close.of_small (hu : |exactValue u| ≤ 2 ^ 126) (hv : |exactValue v| ≤ 2 ^ 126) :
    Close u v := by
  have apart : |exactValue v - exactValue u| ≤ 2 ^ 127 :=
    (abs_sub _ _).trans (by linarith)
  exact ⟨apart.trans (by norm_num [widest]), by rw [limit]; linarith⟩

section

variable (close : Close u v) (hu : u.isFinite = true) (hv : v.isFinite = true) (part : Portion t)
include close hu hv part

/-- Before the sum is rounded it is between the two numbers, up to the rounding of their difference. -/
theorem Close.between : ((v - u) * t).isFinite = true ∧
    (exactValue u ≤ exactValue u + exactValue ((v - u) * t) ∧
        exactValue u + exactValue ((v - u) * t) ≤
          exactValue v + |exactValue v - exactValue u| / 2 ^ 24 ∨
      exactValue v - |exactValue v - exactValue u| / 2 ^ 24 ≤
          exactValue u + exactValue ((v - u) * t) ∧
        exactValue u + exactValue ((v - u) * t) ≤ exactValue u) := by
  obtain ⟨ht, low, high⟩ := part
  have finite : (v - u).isFinite = true :=
    (RoundsTo.sub hv hu).finite (close.apart.trans (by norm_num [widest, limit]))
  have error := abs_le.mp (exactValue_sub_near hv hu finite)
  have grid := onGrid_exactValue finite
  have product := RoundsTo.mul finite ht
  have small : |exactValue (v - u) * exactValue t| ≤ |exactValue (v - u)| := by
    rw [abs_mul, abs_of_nonneg low]
    exact mul_le_of_le_one_right (abs_nonneg _) high
  have finite' : ((v - u) * t).isFinite = true :=
    product.finite (small.trans (exactValue_le_limit finite))
  refine ⟨finite', ?_⟩
  -- The product is rounded to a number between zero and the whole way, since both are on the grid.
  rcases le_total 0 (exactValue (v - u)) with up | down
  · have first := product.ge finite' onGrid_zero (mul_nonneg up low)
    have last := product.le finite' grid (mul_le_of_le_one_right up high)
    exact .inl ⟨by linarith, by linarith⟩
  · have first := product.le finite' onGrid_zero (mul_nonpos_of_nonpos_of_nonneg down low)
    have last := product.ge finite' grid (le_mul_of_le_one_right down high)
    exact .inr ⟨by linarith, by linarith⟩

/-- A part of the way from one number to another lies between them, up to the roundings. -/
theorem Close.lerp : (u + (v - u) * t).isFinite = true ∧
    min (exactValue u) (exactValue v) - 2 ^ 105 ≤ exactValue (u + (v - u) * t) ∧
    exactValue (u + (v - u) * t) ≤ max (exactValue u) (exactValue v) + 2 ^ 105 := by
  obtain ⟨finite, between⟩ := close.between hu hv part
  obtain ⟨apart, within⟩ := close
  have small : |exactValue u + exactValue ((v - u) * t)| < limit + 2 ^ 103 := by
    obtain ⟨below, above⟩ := abs_le.mp (exactValue_le_limit hu)
    have below' := neg_abs_le (exactValue v)
    have above' := le_abs_self (exactValue v)
    rw [abs_lt]
    rcases between with ⟨first, last⟩ | ⟨first, last⟩ <;> constructor <;> linarith
  have sum := RoundsTo.add hu finite
  have finite' := sum.bounded small
  have error := abs_le.mp (sum.error finite')
  rw [limit] at small
  rw [widest] at apart
  have leastU := min_le_left (exactValue u) (exactValue v)
  have leastV := min_le_right (exactValue u) (exactValue v)
  have greatestU := le_max_left (exactValue u) (exactValue v)
  have greatestV := le_max_right (exactValue u) (exactValue v)
  refine ⟨finite', ?_, ?_⟩ <;> rcases between with ⟨first, last⟩ | ⟨first, last⟩ <;> linarith

end

/-! ### Whole numbers inside the picture -/

theorem greater_eq (hlo : lo.isFinite = true) (hhi : hi.isFinite = true) :
    (greater lo hi).isFinite = true ∧
      exactValue (greater lo hi) = max (exactValue lo) (exactValue hi) := by
  have self : lo ≤ lo := (le_iff_exactValue hlo hlo).mpr le_rfl
  unfold greater
  rw [if_pos self]
  split
  · next less =>
    rw [lt_iff_exactValue hlo hhi] at less
    exact ⟨hhi, (max_eq_right less.le).symm⟩
  · next le =>
    rw [lt_iff_exactValue hlo hhi, not_lt] at le
    exact ⟨hlo, (max_eq_left le).symm⟩

theorem lesser_eq (hlo : lo.isFinite = true) (hhi : hi.isFinite = true) :
    (lesser lo hi).isFinite = true ∧
      exactValue (lesser lo hi) = min (exactValue lo) (exactValue hi) := by
  have self : lo ≤ lo := (le_iff_exactValue hlo hlo).mpr le_rfl
  unfold lesser
  rw [if_pos self]
  split
  · next less =>
    rw [lt_iff_exactValue hhi hlo] at less
    exact ⟨hhi, (min_eq_right less.le).symm⟩
  · next le =>
    rw [lt_iff_exactValue hhi hlo, not_lt] at le
    exact ⟨hlo, (min_eq_left le).symm⟩

theorem onGrid_side : OnGrid (2 ^ 61) :=
  ⟨1, 61, by norm_num, by norm_num, by norm_num⟩

/-- A row or a column of a picture may be rounded, but not out of the range of its sides. -/
theorem ofInt_inside {n : Int} (low : 0 ≤ n) (high : n ≤ 2 ^ 61) :
    RoundsTo n (GridNumber.ofInt n : Float32) ∧ (GridNumber.ofInt n : Float32).isFinite = true ∧
      0 ≤ exactValue (GridNumber.ofInt n) ∧ exactValue (GridNumber.ofInt n) ≤ 2 ^ 61 := by
  have rounds : RoundsTo n (GridNumber.ofInt n : Float32) := .ofInt low
  have finite : (GridNumber.ofInt n : Float32).isFinite = true := isFinite_ofInt low (by omega)
  exact ⟨rounds, finite, rounds.ge finite onGrid_zero (by exact_mod_cast low),
    rounds.le finite onGrid_side (by exact_mod_cast high)⟩

/-- The last row or column of a picture. -/
theorem last_le {count : Nat} (few : count < 2 ^ 61) :
    (GridNumber.ofInt count - 1 : Float32).isFinite = true ∧
      exactValue (GridNumber.ofInt count - 1) ≤ 2 ^ 61 := by
  obtain ⟨-, finite, low, high⟩ := ofInt_inside (Int.natCast_nonneg count) (by omega)
  have difference := RoundsTo.sub finite (by decide : (1 : Float32).isFinite = true)
  rw [exactValue_one] at difference
  have finite' : (GridNumber.ofInt count - 1 : Float32).isFinite = true :=
    difference.finite (abs_le.mpr (by rw [limit]; constructor <;> linarith))
  exact ⟨finite', difference.le finite' onGrid_side (by linarith)⟩

theorem of_mem_span {i : Int} (hlo : lo.isFinite = true) (hhi : hi.isFinite = true)
    (member : i ∈ span lo hi) : exactValue lo ≤ exactValue hi ∧
      (GridNumber.toInt lo : Int) ≤ i ∧ i ≤ GridNumber.toInt hi := by
  unfold span at member
  split at member
  · cases member
  · next ordered =>
    rw [lt_iff_exactValue hhi hlo, not_lt] at ordered
    obtain ⟨j, inside, rfl⟩ := List.mem_map.mp member
    rw [List.mem_range] at inside
    exact ⟨ordered, by omega, by omega⟩

/-- What is visible lies between both ends and inside the picture. -/
theorem of_mem_visible {count : Nat} {m n i : Int} (few : count < 2 ^ 61) (hlo : lo.isFinite = true)
    (hhi : hi.isFinite = true) (low : exactValue lo = m) (high : exactValue hi = n)
    (member : i ∈ visible count lo hi) : (m ≤ i ∧ i ≤ n) ∧ 0 ≤ i ∧ i ≤ 2 ^ 61 := by
  obtain ⟨finiteK, belowK⟩ := last_le few
  obtain ⟨finiteF, first⟩ := greater_eq hlo (by decide : (0 : Float32).isFinite = true)
  obtain ⟨finiteL, last⟩ := lesser_eq hhi finiteK
  obtain ⟨order, from_first, to_last⟩ := of_mem_span finiteF finiteL member
  rw [toInt_eq finiteF] at from_first
  rw [toInt_eq finiteL] at to_last
  have whole : max (exactValue lo) (exactValue 0) = (max m 0 : Int) := by
    rw [low, exactValue_zero]
    push_cast
    rfl
  rw [first, whole] at from_first order
  rw [wholeRat_intCast] at from_first
  rw [last, high] at to_last order
  have below := min_le_left (n : ℚ) (exactValue (GridNumber.ofInt count - 1))
  have side := (min_le_right (n : ℚ) (exactValue (GridNumber.ofInt count - 1))).trans belowK
  have whole' : ((2 ^ 61 : Int) : ℚ) = 2 ^ 61 := by norm_num
  rw [← whole'] at side
  have start : max m 0 ≤ 2 ^ 61 := by exact_mod_cast order.trans side
  have stop := wholeRat_mono below
  have stop' := wholeRat_mono side
  rw [wholeRat_intCast] at stop stop'
  simp only [wordMin, wordMax] at from_first to_last
  omega

/-! ### Sides -/

/-- A triangle with finite corners that are close in columns and in depth. -/
structure Compact (s : Triangle Float32) : Prop where
  finite : ∀ p ∈ s.corners, p.isFinite = true
  columns : ∀ p ∈ s.corners, ∀ q ∈ s.corners, Close p.x q.x
  depths : ∀ p ∈ s.corners, ∀ q ∈ s.corners, Close p.z q.z

/-- A crossing that has a finite column and a depth between those of the corners, up to the
roundings. -/
structure Tame (s : Triangle Float32) (c : Crossing Float32) : Prop where
  column : c.x.isFinite = true
  whole : ∃ n : Int, exactValue c.x = n
  depth : c.depth.isFinite = true
  above : ∃ p ∈ s.corners, exactValue p.z - 2 ^ 105 ≤ exactValue c.depth
  below : ∃ p ∈ s.corners, exactValue c.depth ≤ exactValue p.z + 2 ^ 105

variable {s : Triangle Float32} {l r : Crossing Float32} {x y : Int} {color : Color}
variable {f : Fragment Float32}

theorem Tame.crossing (compact : Compact s) (first : p ∈ s.corners) (last : q ∈ s.corners)
    (part : Portion t) : Tame s (crossing p q t) := by
  have hp := compact.finite p first
  have hq := compact.finite q last
  simp only [Point.isFinite, Bool.and_eq_true] at hp hq
  obtain ⟨⟨px, -⟩, pz⟩ := hp
  obtain ⟨⟨qx, -⟩, qz⟩ := hq
  obtain ⟨column, -⟩ := (compact.columns p first q last).lerp px qx part
  obtain ⟨depth, low, high⟩ := (compact.depths p first q last).lerp pz qz part
  obtain ⟨finite, whole⟩ := trunc_eq column
  refine ⟨finite, ⟨_, whole⟩, depth, ?_, ?_⟩
  · rcases min_choice (exactValue p.z) (exactValue q.z) with least | least
    · exact ⟨p, first, least ▸ low⟩
    · exact ⟨q, last, least ▸ low⟩
  · rcases max_choice (exactValue p.z) (exactValue q.z) with greatest | greatest
    · exact ⟨p, first, greatest ▸ high⟩
    · exact ⟨q, last, greatest ▸ high⟩

/-- Both sides of a row of the picture are finite. -/
theorem Tame.crossings {height : Nat} (few : height < 2 ^ 61) (compact : Compact s)
    (visited : y ∈ rows height s) : Tame s (crossings s y).1 ∧ Tame s (crossings s y).2 := by
  have a : s.a ∈ s.corners := by simp [Triangle.corners]
  have b : s.b ∈ s.corners := by simp [Triangle.corners]
  have c : s.c ∈ s.corners := by simp [Triangle.corners]
  have level (p) (corner : p ∈ s.corners) : (GridNumber.trunc p.y).isFinite = true ∧
      exactValue (GridNumber.trunc p.y) = wholeRat (exactValue p.y) := by
    have finite := compact.finite p corner
    simp only [Point.isFinite, Bool.and_eq_true] at finite
    exact trunc_eq finite.1.2
  obtain ⟨bottom, bottom_eq⟩ := level s.a a
  obtain ⟨middle, -⟩ := level s.b b
  obtain ⟨top, top_eq⟩ := level s.c c
  obtain ⟨⟨low, high⟩, pos, small⟩ := of_mem_visible few bottom top bottom_eq top_eq visited
  obtain ⟨rounds, finite, -, small⟩ := ofInt_inside pos small
  have above : exactValue (GridNumber.trunc s.a.y) ≤ exactValue (GridNumber.ofInt y) :=
    rounds.ge finite (onGrid_exactValue bottom) (by rw [bottom_eq]; exact_mod_cast low)
  have below : exactValue (GridNumber.ofInt y) ≤ exactValue (GridNumber.trunc s.c.y) :=
    rounds.le finite (onGrid_exactValue top) (by rw [top_eq]; exact_mod_cast high)
  unfold Fill.crossings
  dsimp only
  refine ⟨.crossing compact a c (progress_portion bottom top finite above below small), ?_⟩
  split
  · next less =>
    have less := ((lt_iff_exactValue finite middle).mp less).le
    exact .crossing compact a b (progress_portion bottom middle finite above less small)
  · next le =>
    have le := not_lt.mp (mt (lt_iff_exactValue finite middle).mpr le)
    exact .crossing compact b c (progress_portion middle top finite le below small)

/-! ### Rows -/

/-- The depths of two sides of a row are no further apart than the numbers of the format. -/
theorem Tame.apart (compact : Compact s) (hl : Tame s l) (hr : Tame s r) :
    |exactValue r.depth - exactValue l.depth| ≤ limit := by
  obtain ⟨p, corner_p, low_l⟩ := hl.above
  obtain ⟨q, corner_q, high_l⟩ := hl.below
  obtain ⟨p', corner_p', low_r⟩ := hr.above
  obtain ⟨q', corner_q', high_r⟩ := hr.below
  have up := abs_le.mp (compact.depths p corner_p q' corner_q').apart
  have down := abs_le.mp (compact.depths p' corner_p' q corner_q).apart
  rw [widest] at up down
  rw [limit, abs_le]
  constructor <;> linarith

/-- Between two sides no depth is NaN. -/
theorem isNaN_between (compact : Compact s) (hl : Tame s l) (hr : Tame s r)
    (order : exactValue l.x ≤ exactValue r.x) (low : 0 ≤ x) (high : x ≤ 2 ^ 61) :
    (l.depth + (r.depth - l.depth) / (r.x - l.x + 1) * (GridNumber.ofInt x - l.x)).isNaN = false := by
  have difference := RoundsTo.sub hr.depth hl.depth
  have finite := difference.finite (hl.apart compact hr)
  have step : ((r.depth - l.depth) / (r.x - l.x + 1)).isFinite = true := by
    rcases count_cases hl.column hr.column order with ⟨s, infinite⟩ | ⟨-, finite', atLeast, -⟩
    · exact (div_infinite finite infinite).1
    · refine (RoundsTo.div (y := r.x - l.x + 1) finite (by linarith)).finite ?_
      rw [abs_div, abs_of_pos (by linarith : 0 < exactValue (r.x - l.x + 1))]
      exact (div_le_self (abs_nonneg _) atLeast).trans (exactValue_le_limit finite)
  obtain ⟨-, finite', low, high⟩ := ofInt_inside low high
  have way : (GridNumber.ofInt x - l.x).isFinite = true := by
    refine (RoundsTo.sub finite' hl.column).bounded (abs_lt.mpr ?_)
    obtain ⟨below, above⟩ := abs_le.mp (exactValue_le_limit hl.column)
    constructor <;> linarith
  exact isNaN_add hl.depth (RoundsTo.mul step way).numeric

theorem isNaN_row {width : Nat} (few : width < 2 ^ 61) (compact : Compact s) (hl : Tame s l)
    (hr : Tame s r) (member : f ∈ row width y color l r) : f.depth.isNaN = false := by
  have between {l r : Crossing Float32} {x : Int} (hl : Tame s l) (hr : Tame s r)
      (order : exactValue l.x ≤ exactValue r.x) (member : x ∈ visible width l.x r.x) :
      (l.depth + (r.depth - l.depth) / (r.x - l.x + 1) * (GridNumber.ofInt x - l.x)).isNaN = false := by
    obtain ⟨m, first⟩ := hl.whole
    obtain ⟨n, last⟩ := hr.whole
    obtain ⟨-, low, high⟩ := of_mem_visible few hl.column hr.column first last member
    exact isNaN_between compact hl hr order low high
  by_cases order : l.x ≤ r.x
  · simp only [row, if_pos order, List.mem_map] at member
    obtain ⟨x, member, rfl⟩ := member
    exact between hl hr ((le_iff_exactValue hl.column hr.column).mp order) member
  · simp only [row, if_neg order, List.mem_map] at member
    obtain ⟨x, member, rfl⟩ := member
    have order := not_le.mp (mt (le_iff_exactValue hl.column hr.column).mpr order)
    exact between hr hl order.le member

theorem Compact.of_small (finite : ∀ p ∈ s.corners, p.isFinite = true)
    (small : ∀ p ∈ s.corners, |exactValue p.x| ≤ 2 ^ 126 ∧ |exactValue p.z| ≤ 2 ^ 126) :
    Compact s where
  finite := finite
  columns p corner q corner' := .of_small (small p corner).1 (small q corner').1
  depths p corner q corner' := .of_small (small p corner).2 (small q corner').2

theorem Compact.of_perm {t : Triangle Float32} (compact : Compact t)
    (same : s.corners.Perm t.corners) : Compact s where
  finite p corner := compact.finite p (same.mem_iff.mp corner)
  columns p corner q corner' := compact.columns p (same.mem_iff.mp corner) q (same.mem_iff.mp corner')
  depths p corner q corner' := compact.depths p (same.mem_iff.mp corner) q (same.mem_iff.mp corner')

/-- No fragment of a triangle has NaN for its depth, if the corners that are filled are close. -/
theorem isNaN_depth {size : Size} {t : Triangle Float32} (fewX : size.width < 2 ^ 61)
    (fewY : size.height < 2 ^ 61) (compact : (∀ p ∈ t.corners, p.isFinite = true) → Compact t)
    (member : f ∈ fragments size t color) : f.depth.isNaN = false := by
  unfold fragments at member
  split at member
  · next finite =>
    simp only [Bool.and_eq_true] at finite
    have compact := (compact (by simpa [Triangle.corners, and_assoc] using finite)).of_perm
      (sortByHeight_perm t)
    obtain ⟨y, visited, member⟩ := List.mem_flatMap.mp member
    obtain ⟨first, last⟩ := Tame.crossings fewY compact visited
    exact isNaN_row fewX compact first last member
  · cases member

end Flipbook.Fill

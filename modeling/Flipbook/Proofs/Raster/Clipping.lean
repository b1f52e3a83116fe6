import Flipbook.Raster.Segment
import Flipbook.Proofs.Number.Exact
import Flipbook.Proofs.Raster.Stepping
import Mathlib.Order.Interval.Set.UnorderedInterval
import Mathlib.Tactic.FieldSimp
import Mathlib.Tactic.Linarith
import Mathlib.Tactic.Ring

/-!
# Exact clipping

Clipping read over the rational numbers. A move cuts off a part of the segment that lies outside of
one border, so no part over the picture is lost (`Part.move`). An end is over the columns of the
picture after one move and over the picture after two, or else the segment is found to miss it, so
the loop ends after four moves (`exists_clips`).
-/

namespace Flipbook

namespace Clip

variable {maxX maxY : ℚ} {p q p' q' : Vec3 ℚ} {s t u : ℚ}

/-! ### One coordinate -/

/-- The number at the part `t` of the way from `c` to `e`. -/
def lerp (c e t : ℚ) : ℚ :=
  c + (e - c) * t

variable {c e border : ℚ}

theorem lerp_zero (c e : ℚ) : lerp c e 0 = c := by
  unfold lerp
  ring

theorem lerp_one (c e : ℚ) : lerp c e 1 = e := by
  unfold lerp
  ring

theorem lerp_swap (c e t : ℚ) : lerp e c t = lerp c e (1 - t) := by
  unfold lerp
  ring

theorem lerp_lerp (c e s t u : ℚ) :
    lerp (lerp c e s) (lerp c e t) u = lerp c e (lerp s t u) := by
  unfold lerp
  ring

theorem lerp_le_max (low : s ≤ u) (high : u ≤ t) :
    lerp c e u ≤ max (lerp c e s) (lerp c e t) := by
  unfold lerp
  rcases le_total 0 (e - c) with up | down
  · have := mul_le_mul_of_nonneg_left high up
    exact le_max_of_le_right (by linarith)
  · have := mul_le_mul_of_nonpos_left low down
    exact le_max_of_le_left (by linarith)

theorem min_le_lerp (low : s ≤ u) (high : u ≤ t) :
    min (lerp c e s) (lerp c e t) ≤ lerp c e u := by
  unfold lerp
  rcases le_total 0 (e - c) with up | down
  · have := mul_le_mul_of_nonneg_left low up
    exact min_le_of_left_le (by linarith)
  · have := mul_le_mul_of_nonpos_left high down
    exact min_le_of_right_le (by linarith)

/-- A part of the way does not leave the range of the two ends. -/
theorem lerp_mem_uIcc (low : 0 ≤ t) (high : t ≤ 1) : lerp c e t ∈ Set.uIcc c e := by
  have least := min_le_lerp (c := c) (e := e) low high
  have greatest := lerp_le_max (c := c) (e := e) low high
  rw [lerp_zero, lerp_one] at least greatest
  exact ⟨least, greatest⟩

/-- The part `t` of the way from `c` to `e` is the first that is not on the side of the border on
which `c` is. -/
structure Crosses (c e border t : ℚ) : Prop where
  apart : e - c ≠ 0
  nonneg : 0 ≤ t
  le_one : t ≤ 1
  lands : lerp c e t = border
  below : c < border → ∀ u, border ≤ lerp c e u → t ≤ u
  above : border < c → ∀ u, lerp c e u ≤ border → t ≤ u

theorem crosses_up (here : c < border) (there : border ≤ e) :
    Crosses c e border ((border - c) / (e - c)) := by
  have pos : 0 < e - c := by linarith
  refine ⟨pos.ne', ?_, ?_, ?_, fun _ u beyond => ?_, fun other => absurd here (not_lt_of_gt other)⟩
  · exact div_nonneg (by linarith) pos.le
  · exact (div_le_one pos).mpr (by linarith)
  · rw [lerp, mul_div_cancel₀ _ pos.ne']
    ring
  · rw [div_le_iff₀ pos, mul_comm]
    unfold lerp at beyond
    linarith

theorem crosses_down (here : border < c) (there : e ≤ border) :
    Crosses c e border ((border - c) / (e - c)) := by
  have neg : e - c < 0 := by linarith
  refine ⟨neg.ne, ?_, ?_, ?_, fun other => absurd here (not_lt_of_gt other), fun _ u beyond => ?_⟩
  · exact div_nonneg_of_nonpos (by linarith) neg.le
  · exact (div_le_one_of_neg neg).mpr (by linarith)
  · rw [lerp, mul_div_cancel₀ _ neg.ne]
    ring
  · rw [div_le_iff_of_neg neg, mul_comm]
    unfold lerp at beyond
    linarith

/-! ### Places around the rectangle -/

/-- The place is over the rectangle `[0, maxX] × [0, maxY]`. -/
def Covers (maxX maxY : ℚ) (v : Vec3 ℚ) : Prop :=
  (0 ≤ v.x ∧ v.x ≤ maxX) ∧ 0 ≤ v.y ∧ v.y ≤ maxY

theorem isInside_iff : (region maxX maxY p).isInside = true ↔ Covers maxX maxY p := by
  simp [region, Region.isInside, Covers, and_assoc]

theorem share_iff : (region maxX maxY p).share (region maxX maxY q) = true ↔
    (p.x < 0 ∧ q.x < 0) ∨ (maxX < p.x ∧ maxX < q.x) ∨ (p.y < 0 ∧ q.y < 0) ∨
      (maxY < p.y ∧ maxY < q.y) := by
  simp [region, Region.share, or_assoc]

theorem along_eq (p q : Vec3 ℚ) (t : ℚ) :
    along p q t = ⟨lerp p.x q.x t, lerp p.y q.y t, lerp p.z q.z t⟩ :=
  rfl

theorem along_zero (p q : Vec3 ℚ) : along p q 0 = p := by
  simp only [along_eq, lerp_zero]

theorem along_one (p q : Vec3 ℚ) : along p q 1 = q := by
  simp only [along_eq, lerp_one]

theorem along_swap (p q : Vec3 ℚ) (t : ℚ) : along q p t = along p q (1 - t) := by
  simp only [along_eq, lerp_swap p.x, lerp_swap p.y, lerp_swap p.z]

theorem along_along (p q : Vec3 ℚ) (s t u : ℚ) :
    along (along p q s) (along p q t) u = along p q (lerp s t u) := by
  simp only [along_eq, lerp_lerp]

theorem covers_between (first : Covers maxX maxY (along p q s))
    (last : Covers maxX maxY (along p q t)) (low : s ≤ u) (high : u ≤ t) :
    Covers maxX maxY (along p q u) := by
  obtain ⟨⟨xs, xs'⟩, ys, ys'⟩ := first
  obtain ⟨⟨xt, xt'⟩, yt, yt'⟩ := last
  refine ⟨⟨?_, ?_⟩, ?_, ?_⟩
  · exact (le_min xs xt).trans (min_le_lerp low high)
  · exact (lerp_le_max low high).trans (max_le xs' xt')
  · exact (le_min ys yt).trans (min_le_lerp low high)
  · exact (lerp_le_max low high).trans (max_le ys' yt')

theorem not_covers_between
    (share : (region maxX maxY (along p q s)).share (region maxX maxY (along p q t)) = true)
    (low : s ≤ u) (high : u ≤ t) : ¬ Covers maxX maxY (along p q u) := by
  rintro ⟨⟨x, x'⟩, y, y'⟩
  rw [share_iff] at share
  rcases share with ⟨a, b⟩ | ⟨a, b⟩ | ⟨a, b⟩ | ⟨a, b⟩
  · exact absurd x (not_le_of_gt ((lerp_le_max low high).trans_lt (max_lt a b)))
  · exact absurd x' (not_le_of_gt ((lt_min a b).trans_le (min_le_lerp low high)))
  · exact absurd y (not_le_of_gt ((lerp_le_max low high).trans_lt (max_lt a b)))
  · exact absurd y' (not_le_of_gt ((lt_min a b).trans_le (min_le_lerp low high)))

/-! ### One move -/

/-- The end `p` of a segment is outside, and shares no outer side with the other end. -/
structure Movable (maxX maxY : ℚ) (p q : Vec3 ℚ) : Prop where
  outside : ¬ Covers maxX maxY p
  apart : ¬ (region maxX maxY p).share (region maxX maxY q) = true

/-- What a move divides by: the length of the segment along the axis of the border. -/
def divisor (r : Region) (p q : Vec3 ℚ) : ℚ :=
  if r.left || r.right then q.x - p.x else q.y - p.y

/-- The place is over the columns of the rectangle. -/
def InColumns (maxX : ℚ) (v : Vec3 ℚ) : Prop :=
  0 ≤ v.x ∧ v.x ≤ maxX

/-- Which border the end `p` moves to, the part `t` of the way to `q`. -/
inductive MovesTo (maxX maxY : ℚ) (p q : Vec3 ℚ) (t : ℚ) : Prop
  | left (here : p.x < 0) (there : 0 ≤ q.x) (crosses : Crosses p.x q.x 0 t)
  | right (here : maxX < p.x) (there : q.x ≤ maxX) (crosses : Crosses p.x q.x maxX t)
  | below (inside : InColumns maxX p) (here : p.y < 0) (there : 0 ≤ q.y)
      (crosses : Crosses p.y q.y 0 t)
  | above (inside : InColumns maxX p) (here : maxY < p.y) (there : q.y ≤ maxY)
      (crosses : Crosses p.y q.y maxY t)

theorem lands_x (lands : lerp p.x q.x t = border) :
    { along p q t with x := border } = along p q t := by
  rw [along_eq, lands]

theorem lands_y (lands : lerp p.y q.y t = border) :
    { along p q t with y := border } = along p q t := by
  rw [along_eq, lands]

theorem exists_movesTo (movable : Movable maxX maxY p q) :
    ∃ t, MovesTo maxX maxY p q t ∧ divisor (region maxX maxY p) p q ≠ 0 ∧
      moveToBorder maxX maxY (region maxX maxY p) p q = along p q t := by
  obtain ⟨outside, apart⟩ := movable
  rw [share_iff] at apart
  simp only [region, divisor, moveToBorder, Bool.or_eq_true, decide_eq_true_eq]
  by_cases left : p.x < 0
  · have there : 0 ≤ q.x := not_lt.mp fun beyond => apart (.inl ⟨left, beyond⟩)
    have crosses := crosses_up left there
    rw [if_pos (.inl left), if_pos left]
    exact ⟨_, .left left there crosses, crosses.apart, lands_x crosses.lands⟩
  by_cases right : maxX < p.x
  · have there : q.x ≤ maxX := not_lt.mp fun beyond => apart (.inr (.inl ⟨right, beyond⟩))
    have crosses := crosses_down right there
    rw [if_pos (.inr right), if_neg left, if_pos right]
    exact ⟨_, .right right there crosses, crosses.apart, lands_x crosses.lands⟩
  have inside : InColumns maxX p := ⟨not_lt.mp left, not_lt.mp right⟩
  rw [if_neg (not_or.mpr ⟨left, right⟩), if_neg left, if_neg right]
  by_cases below : p.y < 0
  · have there : 0 ≤ q.y := not_lt.mp fun beyond => apart (.inr (.inr (.inl ⟨below, beyond⟩)))
    have crosses := crosses_up below there
    rw [if_pos below]
    exact ⟨_, .below inside below there crosses, crosses.apart, lands_y crosses.lands⟩
  · have above : maxY < p.y := not_le.mp fun within =>
      outside ⟨inside, not_lt.mp below, within⟩
    have there : q.y ≤ maxY := not_lt.mp fun beyond => apart (.inr (.inr (.inr ⟨above, beyond⟩)))
    have crosses := crosses_down above there
    rw [if_neg below]
    exact ⟨_, .above inside above there crosses, crosses.apart, lands_y crosses.lands⟩

/-- An end that lands on the lower border is between the borders, unless they are the other way
around. -/
theorem lands_low {v : ℚ} (m : ℚ) (there : 0 ≤ e) (lands : v = 0) :
    (0 ≤ v ∧ v ≤ m) ∨ (m < v ∧ m < e) := by
  rcases le_or_gt v m with within | beyond
  · exact .inl ⟨lands.ge, within⟩
  · exact .inr ⟨beyond, (beyond.trans_eq lands).trans_le there⟩

theorem lands_high {m v : ℚ} (there : e ≤ m) (lands : v = m) :
    (0 ≤ v ∧ v ≤ m) ∨ (v < 0 ∧ e < 0) := by
  rcases le_or_gt 0 v with within | beyond
  · exact .inl ⟨within, lands.le⟩
  · exact .inr ⟨beyond, (there.trans_eq lands.symm).trans_lt beyond⟩

namespace MovesTo

variable (moves : MovesTo maxX maxY p q t)
include moves

theorem nonneg : 0 ≤ t := by
  cases moves with
  | left _ _ crosses | right _ _ crosses | below _ _ _ crosses | above _ _ _ crosses =>
    exact crosses.nonneg

theorem le_one : t ≤ 1 := by
  cases moves with
  | left _ _ crosses | right _ _ crosses | below _ _ _ crosses | above _ _ _ crosses =>
    exact crosses.le_one

/-- Nothing that a move cuts off is over the rectangle. -/
theorem le_of_covers (covers : Covers maxX maxY (along p q u)) : t ≤ u := by
  obtain ⟨⟨x, x'⟩, y, y'⟩ := covers
  cases moves with
  | left here _ crosses => exact crosses.below here u x
  | right here _ crosses => exact crosses.above here u x'
  | below _ here _ crosses => exact crosses.below here u y
  | above _ here _ crosses => exact crosses.above here u y'

/-- An end that moves to a row from over the columns stays over them, unless it leaves them on the
side on which the other end is. -/
theorem stays (inside : InColumns maxX p) :
    (region maxX maxY (along p q t)).share (region maxX maxY q) = true ∨
      InColumns maxX (along p q t) := by
  have low : min p.x q.x ≤ lerp p.x q.x t := (lerp_mem_uIcc moves.nonneg moves.le_one).1
  have high : lerp p.x q.x t ≤ max p.x q.x := (lerp_mem_uIcc moves.nonneg moves.le_one).2
  rw [share_iff]
  by_cases left : lerp p.x q.x t < 0
  · rcases min_lt_iff.mp (low.trans_lt left) with before | after
    · exact absurd before (not_lt.mpr inside.1)
    · exact .inl (.inl ⟨left, after⟩)
  by_cases right : maxX < lerp p.x q.x t
  · rcases lt_max_iff.mp (right.trans_le high) with before | after
    · exact absurd before (not_lt.mpr inside.2)
    · exact .inl (.inr (.inl ⟨right, after⟩))
  exact .inr ⟨not_lt.mp left, not_lt.mp right⟩

/-- Unless the segment is found to miss the rectangle, a moved end is over the columns, and it is
over the rectangle if it was over the columns before. -/
theorem advances :
    (region maxX maxY (along p q t)).share (region maxX maxY q) = true ∨
      InColumns maxX (along p q t) ∧
        (InColumns maxX p → Covers maxX maxY (along p q t)) := by
  cases id moves with
  | left here there crosses =>
    rcases lands_low maxX there crosses.lands with columns | beyond
    · exact .inr ⟨columns, fun inside => absurd here (not_lt.mpr inside.1)⟩
    · exact .inl (share_iff.mpr (.inr (.inl beyond)))
  | right here there crosses =>
    rcases lands_high there crosses.lands with columns | beyond
    · exact .inr ⟨columns, fun inside => absurd here (not_lt.mpr inside.2)⟩
    · exact .inl (share_iff.mpr (.inl beyond))
  | below inside here there crosses =>
    rcases lands_low maxY there crosses.lands with rows | beyond
    · exact (moves.stays inside).imp_right fun columns => ⟨columns, fun _ => ⟨columns, rows⟩⟩
    · exact .inl (share_iff.mpr (.inr (.inr (.inr beyond))))
  | above inside here there crosses =>
    rcases lands_high there crosses.lands with rows | beyond
    · exact (moves.stays inside).imp_right fun columns => ⟨columns, fun _ => ⟨columns, rows⟩⟩
    · exact .inl (share_iff.mpr (.inr (.inr (.inl beyond))))

end MovesTo

/-! ### The loop -/

/-- The passes of the loop, `k` of which move an end, and what they end with: both ends are over the
rectangle, or both are on one outer side of it. No move divides by zero. -/
inductive Clips (maxX maxY : ℚ) :
    Nat → Vec3 ℚ → Vec3 ℚ → Option (Vec3 ℚ × Vec3 ℚ) → Prop
  | whole {p q : Vec3 ℚ} (first : Covers maxX maxY p) (last : Covers maxX maxY q) :
      Clips maxX maxY 0 p q (some (p, q))
  | missed {p q : Vec3 ℚ}
      (share : (region maxX maxY p).share (region maxX maxY q) = true) :
      Clips maxX maxY 0 p q none
  | first {k : Nat} {p q : Vec3 ℚ} {r : Option (Vec3 ℚ × Vec3 ℚ)}
      (movable : Movable maxX maxY p q) (divides : divisor (region maxX maxY p) p q ≠ 0)
      (rest : Clips maxX maxY k (moveToBorder maxX maxY (region maxX maxY p) p q) q r) :
      Clips maxX maxY (k + 1) p q r
  | last {k : Nat} {p q : Vec3 ℚ} {r : Option (Vec3 ℚ × Vec3 ℚ)}
      (settled : Covers maxX maxY p) (movable : Movable maxX maxY q p)
      (divides : divisor (region maxX maxY q) q p ≠ 0)
      (rest : Clips maxX maxY k p (moveToBorder maxX maxY (region maxX maxY q) q p) r) :
      Clips maxX maxY (k + 1) p q r

variable {k n : Nat} {r : Option (Vec3 ℚ × Vec3 ℚ)}

theorem share_comm : (region maxX maxY p).share (region maxX maxY q) = true ↔
    (region maxX maxY q).share (region maxX maxY p) = true := by
  simp only [share_iff, and_comm]

theorem Covers.not_share (covers : Covers maxX maxY p) :
    ¬ (region maxX maxY p).share (region maxX maxY q) = true := by
  obtain ⟨⟨x, x'⟩, y, y'⟩ := covers
  rw [share_iff]
  rintro (⟨a, -⟩ | ⟨a, -⟩ | ⟨a, -⟩ | ⟨a, -⟩) <;> linarith

theorem isInside_of_not_covers (outside : ¬ Covers maxX maxY p) :
    (region maxX maxY p).isInside = false := by
  rwa [← isInside_iff, Bool.not_eq_true] at outside

/-- With one pass more than moves the loop ends as it does. -/
theorem passes_of_clips (n : Nat) (clips : Clips maxX maxY k p q r) :
    passes maxX maxY (n + k + 1) p q = r := by
  induction clips with
  | whole first last =>
    rw [passes, isInside_iff.mpr first, isInside_iff.mpr last]
    rfl
  | missed share =>
    have outside := isInside_of_not_covers fun first => first.not_share share
    rw [passes, outside, share]
    rfl
  | first movable _ _ ih =>
    have outside := isInside_of_not_covers movable.outside
    have apart := Bool.eq_false_of_not_eq_true movable.apart
    rw [passes, outside, apart]
    exact ih
  | last settled movable _ _ ih =>
    have outside := isInside_of_not_covers movable.outside
    have apart := Bool.eq_false_of_not_eq_true (share_comm.not.mp movable.apart)
    rw [passes, isInside_iff.mpr settled, outside, apart]
    exact ih

/-- An end that moves towards `w` as often as it can settles after two moves. -/
theorem settles (maxX maxY : ℚ) (n : Nat) (Ends : Nat → Vec3 ℚ → Prop) (w : Vec3 ℚ)
    (move : ∀ k v, Movable maxX maxY v w → divisor (region maxX maxY v) v w ≠ 0 →
      Ends k (moveToBorder maxX maxY (region maxX maxY v) v w) → Ends (k + 1) v)
    (missed : ∀ k v, (region maxX maxY v).share (region maxX maxY w) = true → Ends k v)
    (settled : ∀ k v, n ≤ k → Covers maxX maxY v → Ends k v) (v : Vec3 ℚ) : Ends (n + 2) v := by
  -- One move, whatever follows it.
  have once (k : Nat) (v : Vec3 ℚ) (room : n ≤ k)
      (next : ∀ t, InColumns maxX (along v w t) →
        (InColumns maxX v → Covers maxX maxY (along v w t)) → Ends k (along v w t)) :
      Ends (k + 1) v := by
    by_cases covers : Covers maxX maxY v
    · exact settled _ v (Nat.le_succ_of_le room) covers
    by_cases share : (region maxX maxY v).share (region maxX maxY w) = true
    · exact missed _ v share
    obtain ⟨t, moves, divides, lands⟩ := exists_movesTo ⟨covers, share⟩
    refine move k v ⟨covers, share⟩ divides ?_
    rw [lands]
    rcases moves.advances with share | ⟨columns, covers⟩
    · exact missed _ _ share
    · exact next t columns covers
  refine once (n + 1) v (Nat.le_succ n) fun t columns _ => ?_
  exact once n (along v w t) le_rfl fun u _ covers => settled n _ le_rfl (covers columns)

theorem exists_clips (maxX maxY : ℚ) (p q : Vec3 ℚ) : ∃ k ≤ 4, ∃ r, Clips maxX maxY k p q r := by
  have last (p : Vec3 ℚ) (first : Covers maxX maxY p) : ∃ k ≤ 2, ∃ r, Clips maxX maxY k p q r := by
    refine settles maxX maxY 0 (fun n q => ∃ k ≤ n, ∃ r, Clips maxX maxY k p q r) p ?_ ?_ ?_ q
    · rintro n v movable divides ⟨k, few, r, rest⟩
      exact ⟨k + 1, Nat.succ_le_succ few, r, .last first movable divides rest⟩
    · intro n v share
      exact absurd (share_comm.mp share) first.not_share
    · intro n v _ covers
      exact ⟨0, Nat.zero_le n, _, .whole first covers⟩
  refine settles maxX maxY 2 (fun n p => ∃ k ≤ n, ∃ r, Clips maxX maxY k p q r) q ?_ ?_ ?_ p
  · rintro n v movable divides ⟨k, few, r, rest⟩
    exact ⟨k + 1, Nat.succ_le_succ few, r, .first movable divides rest⟩
  · intro n v share
    exact ⟨0, Nat.zero_le n, _, .missed share⟩
  · intro n v room covers
    obtain ⟨k, few, ends⟩ := last v covers
    exact ⟨k, few.trans room, ends⟩

/-! ### What is left of a segment -/

/-- The part of a segment from `s` to `t` has everything of it that is over the rectangle. -/
structure Part (maxX maxY : ℚ) (p q : Vec3 ℚ) (s t : ℚ) : Prop where
  nonneg : 0 ≤ s
  ordered : s ≤ t
  le_one : t ≤ 1
  complete : ∀ u, 0 ≤ u → u ≤ 1 → Covers maxX maxY (along p q u) → s ≤ u ∧ u ≤ t
  first : Covers maxX maxY p → s = 0
  last : Covers maxX maxY q → t = 1

theorem part_whole (maxX maxY : ℚ) (p q : Vec3 ℚ) : Part maxX maxY p q 0 1 :=
  ⟨le_rfl, zero_le_one, le_rfl, fun _ low high _ => ⟨low, high⟩, fun _ => rfl, fun _ => rfl⟩

theorem Part.swap (part : Part maxX maxY p q s t) : Part maxX maxY q p (1 - t) (1 - s) where
  nonneg := by linarith [part.le_one]
  ordered := by linarith [part.ordered]
  le_one := by linarith [part.nonneg]
  complete u low high covers := by
    rw [along_swap] at covers
    obtain ⟨after, before⟩ := part.complete (1 - u) (by linarith) (by linarith) covers
    constructor <;> linarith
  first covers := by rw [part.last covers, sub_self]
  last covers := by rw [part.first covers, sub_zero]

theorem Part.move (part : Part maxX maxY p q s t)
    (movable : Movable maxX maxY (along p q s) (along p q t))
    (moves : MovesTo maxX maxY (along p q s) (along p q t) u) :
    Part maxX maxY p q (lerp s t u) t where
  nonneg := by
    have := min_le_lerp (c := s) (e := t) moves.nonneg moves.le_one
    rw [lerp_zero, lerp_one, min_eq_left part.ordered] at this
    exact part.nonneg.trans this
  ordered := by
    have := lerp_le_max (c := s) (e := t) moves.nonneg moves.le_one
    rwa [lerp_zero, lerp_one, max_eq_right part.ordered] at this
  le_one := part.le_one
  complete v low high covers := by
    obtain ⟨after, before⟩ := part.complete v low high covers
    refine ⟨?_, before⟩
    rcases part.ordered.eq_or_lt with rfl | proper
    · simpa [lerp] using after
    · have pos : 0 < t - s := by linarith
      have place : lerp s t ((v - s) / (t - s)) = v := by
        rw [lerp, mul_div_cancel₀ _ pos.ne']
        ring
      rw [← place, ← along_along] at covers
      have := moves.le_of_covers covers
      rw [le_div_iff₀ pos] at this
      unfold lerp
      linarith
  first covers := by
    have outside := movable.outside
    rw [part.first covers, along_zero] at outside
    exact absurd covers outside
  last := part.last

theorem Part.move_last (part : Part maxX maxY p q s t)
    (movable : Movable maxX maxY (along p q t) (along p q s))
    (moves : MovesTo maxX maxY (along p q t) (along p q s) u) :
    Part maxX maxY p q s (lerp t s u) := by
  have swapped (v : ℚ) : along p q v = along q p (1 - v) := along_swap q p v
  rw [swapped s, swapped t] at movable moves
  have result := (part.swap.move movable moves).swap
  have turned : 1 - lerp (1 - t) (1 - s) u = lerp t s u := by
    unfold lerp
    ring
  rwa [sub_sub_cancel, turned] at result

/-- The segment from `p'` to `q'` is exactly the part of that from `p` to `q` over the rectangle. -/
structure Cut (maxX maxY : ℚ) (p q p' q' : Vec3 ℚ) : Prop where
  part : ∃ s t, 0 ≤ s ∧ s ≤ t ∧ t ≤ 1 ∧ p' = along p q s ∧ q' = along p q t ∧
    ∀ u, 0 ≤ u → u ≤ 1 → (Covers maxX maxY (along p q u) ↔ s ≤ u ∧ u ≤ t)
  first : Covers maxX maxY p → p' = p
  last : Covers maxX maxY q → q' = q

theorem Part.cut (part : Part maxX maxY p q s t) (first : Covers maxX maxY (along p q s))
    (last : Covers maxX maxY (along p q t)) :
    Cut maxX maxY p q (along p q s) (along p q t) where
  part := ⟨s, t, part.nonneg, part.ordered, part.le_one, rfl, rfl, fun u low high =>
    ⟨part.complete u low high, fun between => covers_between first last between.1 between.2⟩⟩
  first covers := by rw [part.first covers, along_zero]
  last covers := by rw [part.last covers, along_one]

theorem Clips.covers (clips : Clips maxX maxY k p q r) (answer : r = some (p', q')) :
    Covers maxX maxY p' ∧ Covers maxX maxY q' := by
  induction clips with
  | whole first last =>
    cases answer
    exact ⟨first, last⟩
  | missed => cases answer
  | first _ _ _ ih => exact ih answer
  | last _ _ _ _ ih => exact ih answer

theorem Clips.answers (clips : Clips maxX maxY k p' q' r) (hp : p' = along p q s)
    (hq : q' = along p q t) (part : Part maxX maxY p q s t) :
    (∀ p' q', r = some (p', q') → Cut maxX maxY p q p' q') ∧
      (r = none → ∀ u, 0 ≤ u → u ≤ 1 → ¬ Covers maxX maxY (along p q u)) := by
  induction clips generalizing s t with
  | whole first last =>
    subst hp hq
    refine ⟨?_, nofun⟩
    rintro _ _ ⟨⟩
    exact part.cut first last
  | missed share =>
    subst hp hq
    refine ⟨nofun, fun _ u low high covers => ?_⟩
    obtain ⟨after, before⟩ := part.complete u low high covers
    exact not_covers_between share after before covers
  | first movable _ _ ih =>
    subst hp hq
    obtain ⟨u, moves, -, lands⟩ := exists_movesTo movable
    exact ih (lands.trans (along_along p q s t u)) rfl (part.move movable moves)
  | last _ movable _ _ ih =>
    subst hp hq
    obtain ⟨u, moves, -, lands⟩ := exists_movesTo movable
    exact ih rfl (lands.trans (along_along p q t s u)) (part.move_last movable moves)

end Clip

namespace Segment

open Clip

variable {α : Type} [GridNumber α] [Widening α ℚ] {size : Size} {a b : Point α} {p q : Vec3 ℚ}

/-- The place of a point in the exact arithmetic. -/
def wide (p : Point α) : Vec3 ℚ :=
  ⟨Widening.widen p.x, Widening.widen p.y, Widening.widen p.z⟩

theorem exists_clips_clip (size : Size) (first : a.isFinite = true) (last : b.isFinite = true) :
    ∃ k ≤ 4, Clips (size.width - 1 : ℚ) (size.height - 1) k (wide a) (wide b) (clip size a b) := by
  have finite : (a.isFinite && b.isFinite) = true := by rw [first, last]; rfl
  obtain ⟨k, few, r, clips⟩ := exists_clips (size.width - 1) (size.height - 1) (wide a) (wide b)
  have passes := passes_of_clips (7 - k) clips
  rw [show 7 - k + k + 1 = 8 by omega] at passes
  have answer : clip size a b = r := (if_pos finite).trans passes
  rw [answer]
  exact ⟨k, few, clips⟩

theorem covers_of_clip (clipped : clip size a b = some (p, q)) :
    Covers (size.width - 1 : ℚ) (size.height - 1) p ∧
      Covers (size.width - 1 : ℚ) (size.height - 1) q := by
  have finite : (a.isFinite && b.isFinite) = true := by
    by_contra infinite
    exact absurd ((if_neg infinite).symm.trans clipped) nofun
  obtain ⟨first, last⟩ := (Bool.and_eq_true _ _).mp finite
  obtain ⟨k, -, clips⟩ := exists_clips_clip size first last
  rw [clipped] at clips
  exact clips.covers rfl

omit [GridNumber α] in
theorem pixel_within (covers : Covers (size.width - 1 : ℚ) (size.height - 1) p) :
    (0 ≤ (pixel p : PixelPoint α).x ∧ (pixel p : PixelPoint α).x < size.width) ∧
      0 ≤ (pixel p : PixelPoint α).y ∧ (pixel p : PixelPoint α).y < size.height := by
  obtain ⟨⟨x, x'⟩, y, y'⟩ := covers
  have columns := Number.wholeRat_within (n := size.width - 1) x (by push_cast; exact x')
  have rows := Number.wholeRat_within (n := size.height - 1) y (by push_cast; exact y')
  show (0 ≤ Number.wholeRat p.x ∧ Number.wholeRat p.x < _) ∧
    0 ≤ Number.wholeRat p.y ∧ Number.wholeRat p.y < _
  omega

variable [Add α] [Sub α] [Div α] (color : Color)

omit [Widening α ℚ] in
/-- A line between two pixels of a picture does not leave it. -/
theorem line_within {first last : PixelPoint α}
    (here : (0 ≤ first.x ∧ first.x < size.width) ∧ 0 ≤ first.y ∧ first.y < size.height)
    (there : (0 ≤ last.x ∧ last.x < size.width) ∧ 0 ≤ last.y ∧ last.y < size.height) :
    (Line.fragments id first last color).length ≤ max size.width size.height ∧
      ∀ f ∈ Line.fragments id first last color, f.inside size = true := by
  constructor
  · rw [Line.length_fragments, Line.stepCount]
    omega
  · intro f member
    obtain ⟨n, at_n⟩ := List.getElem?_of_mem member
    obtain ⟨inX, inY, -, -⟩ := Line.near_of_getElem? color at_n
    simp only [Fragment.inside, Bool.and_eq_true, decide_eq_true_eq]
    omega

/-- Clipping is exact. The loop ends within four moves with the two ends of the part of the segment
that is over the picture, and with none if there is no such part. So what is drawn of any segment is
inside the picture, and no longer than it. -/
theorem clip_exact (size : Size) (a b : Point α) :
    let maxX : ℚ := size.width - 1
    let maxY : ℚ := size.height - 1
    (a.isFinite = true → b.isFinite = true →
      (∃ moves ≤ 4, Clips maxX maxY moves (wide a) (wide b) (clip size a b)) ∧
      ((clip size a b).isSome = true ↔
        ∃ u, 0 ≤ u ∧ u ≤ 1 ∧ Covers maxX maxY (along (wide a) (wide b) u)) ∧
      ∀ p q, clip size a b = some (p, q) → Cut maxX maxY (wide a) (wide b) p q) ∧
    (fragments size a b color).length ≤ max size.width size.height ∧
    ∀ f ∈ fragments size a b color, f.inside size = true := by
  intro maxX maxY
  constructor
  · intro first last
    obtain ⟨k, few, clips⟩ := exists_clips_clip size first last
    obtain ⟨cut, miss⟩ := clips.answers (along_zero _ _).symm (along_one _ _).symm
      (part_whole maxX maxY (wide a) (wide b))
    refine ⟨⟨k, few, clips⟩, ?_, cut⟩
    cases answer : clip size a b with
    | none =>
      refine iff_of_false nofun ?_
      rintro ⟨u, low, high, covers⟩
      exact miss answer u low high covers
    | some r =>
      obtain ⟨⟨s, t, low, ordered, high, -, -, exact⟩, -, -⟩ := cut r.1 r.2 answer
      refine iff_of_true rfl ⟨s, low, ordered.trans high, ?_⟩
      exact (exact s low (ordered.trans high)).mpr ⟨le_rfl, ordered⟩
  · cases clipped : clip size a b with
    | none => simp [fragments, clipped]
    | some r =>
      obtain ⟨first, last⟩ := covers_of_clip clipped
      have drawn : fragments size a b color = Line.fragments id (pixel r.1) (pixel r.2) color := by
        simp only [fragments, clipped]
        rfl
      rw [drawn]
      exact line_within color (pixel_within first) (pixel_within last)

-- Each end of this segment moves twice.
example : Clip.passes (9 : ℚ) 9 4 ⟨-2, -17 / 2, 0⟩ ⟨11, 35 / 2, 13⟩ = none ∧
    Clip.passes (9 : ℚ) 9 5 ⟨-2, -17 / 2, 0⟩ ⟨11, 35 / 2, 13⟩ =
      some (⟨9 / 4, 0, 17 / 4⟩, ⟨27 / 4, 9, 35 / 4⟩) := by
  decide +kernel

end Segment

end Flipbook

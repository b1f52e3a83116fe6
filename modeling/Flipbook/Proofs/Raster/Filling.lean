import Flipbook.Proofs.Raster.Clipping
import Flipbook.Raster.Fill
import Mathlib.Data.List.Nodup

/-!
# Exact filling

The fill of a triangle read over the rational numbers. An edge takes its rows in equal parts and
stops one part short of its upper end, so in each of its rows it is a part of the way from one end
to the other. What is filled lies between two such places, and so never outside of the triangle's
corners (`fragments_fill`).
-/

namespace Flipbook

/-- The corners of a triangle in the order in which they are listed. -/
def Triangle.corners {α : Type} (t : Triangle α) : List (Point α) :=
  [t.a, t.b, t.c]

/-- The value lies between the least and the greatest that a triangle has at its corners. -/
def Triangle.Spans {β : Type} [LE β] (t : Triangle ℚ) (measure : Point ℚ → β) (value : β) : Prop :=
  (∃ p ∈ t.corners, measure p ≤ value) ∧ ∃ p ∈ t.corners, value ≤ measure p

namespace Triangle

variable {β : Type} [LinearOrder β] {t u : Triangle ℚ} {measure : Point ℚ → β} {p q : Point ℚ}
variable {v w value : β}

theorem Spans.of_sides (first : p ∈ t.corners) (last : q ∈ t.corners)
    (within : value ∈ Set.uIcc (measure p) (measure q)) : t.Spans measure value := by
  rcases Set.mem_uIcc.mp within with ⟨low, high⟩ | ⟨low, high⟩
  · exact ⟨⟨p, first, low⟩, q, last, high⟩
  · exact ⟨⟨q, last, low⟩, p, first, high⟩

theorem Spans.between (first : t.Spans measure v) (last : t.Spans measure w)
    (within : value ∈ Set.uIcc v w) : t.Spans measure value := by
  obtain ⟨⟨p, hp, pv⟩, p', hp', vp'⟩ := first
  obtain ⟨⟨q, hq, qw⟩, q', hq', wq'⟩ := last
  rcases Set.mem_uIcc.mp within with ⟨low, high⟩ | ⟨low, high⟩
  · exact ⟨⟨p, hp, pv.trans low⟩, q', hq', high.trans wq'⟩
  · exact ⟨⟨q, hq, qw.trans low⟩, p', hp', high.trans vp'⟩

theorem spans_congr (same : u.corners.Perm t.corners) :
    u.Spans measure value ↔ t.Spans measure value := by
  simp only [Spans, same.mem_iff]

end Triangle

namespace Fill

open Clip Number

variable {size : Size} {t : Triangle ℚ} {color : Color} {f : Fragment ℚ} {x y : Int}

/-! ### Whole numbers inside the picture -/

theorem mem_span {first last n : Int} : n ∈ span (first : ℚ) last ↔ first ≤ n ∧ n ≤ last := by
  have start : GridNumber.toInt (first : ℚ) = first := wholeRat_intCast first
  have stop : GridNumber.toInt (last : ℚ) = last := wholeRat_intCast last
  unfold span
  split
  · next empty =>
    have := Int.cast_lt.mp empty
    simp only [List.not_mem_nil, false_iff]
    omega
  · simp only [start, stop, List.mem_map, List.mem_range]
    constructor
    · rintro ⟨i, inside, rfl⟩
      omega
    · intro between
      exact ⟨(n - first).toNat, by omega, by omega⟩

theorem nodup_span (first last : ℚ) : (span first last).Nodup := by
  unfold span
  split
  · exact .nil
  · exact List.Nodup.map (fun i j same => by simpa using same) List.nodup_range

theorem mem_visible {count : Nat} {lo hi n : Int} :
    n ∈ visible count (lo : ℚ) hi ↔ (lo ≤ n ∧ n ≤ hi) ∧ 0 ≤ n ∧ n < count := by
  have first : max (lo : ℚ) 0 = (max lo 0 : Int) := by push_cast; rfl
  have last : min (hi : ℚ) (GridNumber.ofInt count - 1) = (min hi (count - 1) : Int) := by
    push_cast
    rfl
  rw [visible, greater_eq_max, lesser_eq_min, first, last, mem_span]
  omega

/-! ### Edges -/

/-- The row of a point. -/
def rowOf (p : Point ℚ) : Int :=
  wholeRat p.y

/-- The column of a point. -/
def columnOf (p : Point ℚ) : Int :=
  wholeRat p.x

/-- The part of its way that an edge has made in row `y`. -/
def progress (e : Edge ℚ) (y : Int) : ℚ :=
  (y - rowOf e.a) / (rowOf e.b - rowOf e.a + 1)

def columnAt (e : Edge ℚ) (y : Int) : Int :=
  wholeRat (lerp e.a.x e.b.x (progress e y))

def depthAt (e : Edge ℚ) (y : Int) : ℚ :=
  lerp e.a.z e.b.z (progress e y)

variable {e : Edge ℚ}

theorem progress_nonneg (low : rowOf e.a ≤ y) (high : y ≤ rowOf e.b) : 0 ≤ progress e y := by
  have low : (rowOf e.a : ℚ) ≤ y := mod_cast low
  have high : (y : ℚ) ≤ rowOf e.b := mod_cast high
  exact div_nonneg (by linarith) (by linarith)

theorem progress_le_one (low : rowOf e.a ≤ y) (high : y ≤ rowOf e.b) : progress e y ≤ 1 := by
  have low : (rowOf e.a : ℚ) ≤ y := mod_cast low
  have high : (y : ℚ) ≤ rowOf e.b := mod_cast high
  exact div_le_one_of_le₀ (by linarith) (by linarith)

theorem columnAt_mem (low : rowOf e.a ≤ y) (high : y ≤ rowOf e.b) :
    columnAt e y ∈ Set.uIcc (columnOf e.a) (columnOf e.b) := by
  have mono : Monotone wholeRat := fun _ _ => wholeRat_mono
  exact mono.mapsTo_uIcc (lerp_mem_uIcc (progress_nonneg low high) (progress_le_one low high))

theorem depthAt_mem (low : rowOf e.a ≤ y) (high : y ≤ rowOf e.b) :
    depthAt e y ∈ Set.uIcc e.a.z e.b.z :=
  lerp_mem_uIcc (progress_nonneg low high) (progress_le_one low high)

/-! ### One row -/

theorem row_of_le {width : Nat} {m n : Int} (le : m ≤ n) (d d' : ℚ) :
    row width y color ⟨(m : ℚ), d⟩ ⟨(n : ℚ), d'⟩ = (visible width (m : ℚ) n).map fun x =>
      ⟨x, y, lerp d d' ((x - m) / (n - m + 1)), color⟩ := by
  have le : (m : ℚ) ≤ n := mod_cast le
  simp only [row, if_pos le]
  refine List.map_congr_left fun x _ => ?_
  have depth : d + (d' - d) / (n - m + 1) * (GridNumber.ofInt x - m) =
      lerp d d' ((x - m) / (n - m + 1)) := by
    show d + (d' - d) / (n - m + 1) * ((x : ℚ) - m) = _
    unfold lerp
    ring
  rw [depth]

theorem row_of_lt {width : Nat} {m n : Int} (lt : n < m) (d d' : ℚ) :
    row width y color ⟨(m : ℚ), d⟩ ⟨(n : ℚ), d'⟩ = row width y color ⟨(n : ℚ), d'⟩ ⟨(m : ℚ), d⟩ := by
  have lt : (n : ℚ) < m := mod_cast lt
  simp only [row, if_neg (not_le.mpr lt), if_pos lt.le]

/-- The pixels over which fragments lie. -/
def pixels {α : Type} (drawn : List (Fragment α)) : List (Int × Int) :=
  drawn.map fun f => (f.x, f.y)

theorem mem_pixels_iff {drawn : List (Fragment ℚ)} :
    (x, y) ∈ pixels drawn ↔ ∃ f ∈ drawn, f.x = x ∧ f.y = y := by
  simp [pixels]

theorem pixels_row (width : Nat) (y : Int) (color : Color) (m n : Int) (d d' : ℚ) :
    pixels (row width y color ⟨(m : ℚ), d⟩ ⟨(n : ℚ), d'⟩) =
      (visible width ((min m n : Int) : ℚ) ((max m n : Int) : ℚ)).map (·, y) := by
  rcases le_or_gt m n with le | lt
  · rw [row_of_le le, min_eq_left le, max_eq_right le, pixels, List.map_map]
    rfl
  · rw [row_of_lt lt, row_of_le lt.le, min_eq_right lt.le, max_eq_left lt.le, pixels, List.map_map]
    rfl

theorem mem_pixels_row {width : Nat} {m n : Int} {d d' : ℚ} {y' : Int} :
    (x, y) ∈ pixels (row width y' color ⟨(m : ℚ), d⟩ ⟨(n : ℚ), d'⟩) ↔
      y = y' ∧ x ∈ Set.uIcc m n ∧ 0 ≤ x ∧ x < width := by
  rw [pixels_row, List.mem_map]
  simp only [mem_visible, Prod.mk.injEq]
  constructor
  · rintro ⟨x, within, rfl, rfl⟩
    exact ⟨rfl, within⟩
  · rintro ⟨rfl, within⟩
    exact ⟨x, within, rfl, rfl⟩

theorem of_mem_row {width : Nat} {m n : Int} {d d' : ℚ}
    (member : f ∈ row width y color ⟨(m : ℚ), d⟩ ⟨(n : ℚ), d'⟩) :
    f.color = color ∧ f.depth ∈ Set.uIcc d d' := by
  wlog le : m ≤ n generalizing m n d d'
  · have lt := not_le.mp le
    rw [row_of_lt lt] at member
    rw [Set.uIcc_comm]
    exact this member lt.le
  rw [row_of_le le, List.mem_map] at member
  obtain ⟨x, within, rfl⟩ := member
  obtain ⟨⟨low, high⟩, -⟩ := mem_visible.mp within
  have low : (m : ℚ) ≤ x := mod_cast low
  have high : (x : ℚ) ≤ n := mod_cast high
  exact ⟨rfl, lerp_mem_uIcc (div_nonneg (by linarith) (by linarith))
    (div_le_one_of_le₀ (by linarith) (by linarith))⟩

/-! ### The order of heights -/

section

variable {α : Type} [LT α] [DecidableLT α]

/-- The corners with the first two in the order of their heights. -/
def lowerFirst (t : Triangle α) : Triangle α :=
  if t.b.y < t.a.y then ⟨t.b, t.a, t.c⟩ else t

/-- The corners with the last two in the order of their heights. -/
def higherLast (t : Triangle α) : Triangle α :=
  if t.c.y < t.b.y then ⟨t.a, t.c, t.b⟩ else t

theorem lowerFirst_perm (t : Triangle α) : (lowerFirst t).corners.Perm t.corners := by
  unfold lowerFirst
  split
  · exact .swap ..
  · exact .refl _

theorem higherLast_perm (t : Triangle α) : (higherLast t).corners.Perm t.corners := by
  unfold higherLast
  split
  · exact .cons _ (.swap ..)
  · exact .refl _

theorem sortByHeight_eq (t : Triangle α) :
    sortByHeight t = lowerFirst (higherLast (lowerFirst t)) :=
  rfl

theorem sortByHeight_perm (t : Triangle α) : (sortByHeight t).corners.Perm t.corners :=
  (lowerFirst_perm _).trans ((higherLast_perm _).trans (lowerFirst_perm t))

end

/-- The corners are listed in the order of their heights. -/
structure Sorted (t : Triangle ℚ) : Prop where
  low : t.a.y ≤ t.b.y
  high : t.b.y ≤ t.c.y

theorem sorted_lowerFirst (first : t.a.y ≤ t.c.y) (last : t.b.y ≤ t.c.y) : Sorted (lowerFirst t) := by
  unfold lowerFirst
  split
  · next less => exact ⟨less.le, first⟩
  · next le => exact ⟨not_lt.mp le, last⟩

theorem sorted_sortByHeight (t : Triangle ℚ) : Sorted (sortByHeight t) := by
  have low : (lowerFirst t).a.y ≤ (lowerFirst t).b.y := by
    unfold lowerFirst
    split
    · next less => exact less.le
    · next le => exact not_lt.mp le
  rw [sortByHeight_eq]
  generalize lowerFirst t = u at low
  unfold higherLast
  split
  · next less => exact sorted_lowerFirst low less.le
  · next le => exact sorted_lowerFirst (low.trans (not_lt.mp le)) (not_lt.mp le)

/-! ### The whole triangle -/

/-- The edge from the lowest corner to the highest. -/
def longSide (t : Triangle ℚ) : Edge ℚ :=
  ⟨t.a, t.c⟩

/-- The edge on the other side in row `y`. The row of the middle corner belongs to the upper one. -/
def shortSide (t : Triangle ℚ) (y : Int) : Edge ℚ :=
  if y < rowOf t.b then ⟨t.a, t.b⟩ else ⟨t.b, t.c⟩

theorem crossings_eq (t : Triangle ℚ) (y : Int) :
    crossings t y = (⟨(columnAt (longSide t) y : ℚ), depthAt (longSide t) y⟩,
      ⟨(columnAt (shortSide t y) y : ℚ), depthAt (shortSide t y) y⟩) := by
  have below : ((y : ℚ) < (wholeRat t.b.y : ℚ)) = (y < rowOf t.b) := propext Int.cast_lt
  show (_, if (y : ℚ) < (wholeRat t.b.y : ℚ) then _ else _) = _
  simp only [below, shortSide]
  split
  · rfl
  · rfl

theorem fragments_eq (size : Size) (t : Triangle ℚ) (color : Color) :
    fragments size t color = (rows size.height (sortByHeight t)).flatMap fun y =>
      row size.width y color (crossings (sortByHeight t) y).1 (crossings (sortByHeight t) y).2 :=
  rfl

theorem pixels_fragments (size : Size) (t : Triangle ℚ) (color : Color) :
    let s := sortByHeight t
    pixels (fragments size t color) = (rows size.height s).flatMap fun y =>
      pixels (row size.width y color ⟨(columnAt (longSide s) y : ℚ), depthAt (longSide s) y⟩
        ⟨(columnAt (shortSide s y) y : ℚ), depthAt (shortSide s y) y⟩) := by
  simp only [fragments_eq, crossings_eq]
  exact List.map_flatMap

theorem mem_rows {height : Nat} :
    y ∈ rows height t ↔ (rowOf t.a ≤ y ∧ y ≤ rowOf t.c) ∧ 0 ≤ y ∧ y < height :=
  mem_visible

/-- The columns between the two sides of a triangle sorted by height. -/
def Between (t : Triangle ℚ) (x y : Int) : Prop :=
  x ∈ Set.uIcc (columnAt (longSide t) y) (columnAt (shortSide t y) y)

theorem mem_pixels : (x, y) ∈ pixels (fragments size t color) ↔
    y ∈ rows size.height (sortByHeight t) ∧ Between (sortByHeight t) x y ∧
      0 ≤ x ∧ x < size.width := by
  rw [pixels_fragments, List.mem_flatMap]
  simp only [mem_pixels_row]
  constructor
  · rintro ⟨y, visited, rfl, columns⟩
    exact ⟨visited, columns⟩
  · rintro ⟨visited, columns⟩
    exact ⟨y, visited, rfl, columns⟩

theorem nodup_pixels (size : Size) (t : Triangle ℚ) (color : Color) :
    (pixels (fragments size t color)).Nodup := by
  rw [pixels_fragments, List.nodup_flatMap]
  simp only [pixels_row]
  refine ⟨fun y _ => ?_, ?_⟩
  · exact List.Nodup.map (fun i j same => congrArg Prod.fst same) (nodup_span _ _)
  · refine (nodup_span _ _).imp fun {y y'} apart pixel here there => ?_
    obtain ⟨x, -, rfl⟩ := List.mem_map.mp here
    obtain ⟨x', -, same⟩ := List.mem_map.mp there
    exact apart (congrArg Prod.snd same).symm

/-- Both sides of a row come from corners below it to corners above it. -/
theorem spans_sides (t : Triangle ℚ) (low : rowOf t.a ≤ y) (high : y ≤ rowOf t.c) :
    t.Spans columnOf (columnAt (longSide t) y) ∧ t.Spans columnOf (columnAt (shortSide t y) y) ∧
      t.Spans (·.z) (depthAt (longSide t) y) ∧ t.Spans (·.z) (depthAt (shortSide t y) y) := by
  have a : t.a ∈ t.corners := by simp [Triangle.corners]
  have b : t.b ∈ t.corners := by simp [Triangle.corners]
  have c : t.c ∈ t.corners := by simp [Triangle.corners]
  have side {e : Edge ℚ} (first : e.a ∈ t.corners) (last : e.b ∈ t.corners) (low : rowOf e.a ≤ y)
      (high : y ≤ rowOf e.b) : t.Spans columnOf (columnAt e y) ∧ t.Spans (·.z) (depthAt e y) :=
    ⟨.of_sides first last (columnAt_mem low high), .of_sides first last (depthAt_mem low high)⟩
  have long := side (e := longSide t) a c low high
  have short : t.Spans columnOf (columnAt (shortSide t y) y) ∧
      t.Spans (·.z) (depthAt (shortSide t y) y) := by
    unfold shortSide
    split
    · next below => exact side a b low below.le
    · next above => exact side b c (not_lt.mp above) high
  exact ⟨long.1, short.1, long.2, short.2⟩

/-- The rows between the lowest corner and the highest are those that the corners span. -/
theorem spans_row_iff (sorted : Sorted t) :
    t.Spans rowOf y ↔ rowOf t.a ≤ y ∧ y ≤ rowOf t.c := by
  have low : rowOf t.a ≤ rowOf t.b := wholeRat_mono sorted.low
  have high : rowOf t.b ≤ rowOf t.c := wholeRat_mono sorted.high
  simp only [Triangle.Spans, Triangle.corners, List.mem_cons, List.not_mem_nil, or_false,
    exists_eq_or_imp, exists_eq_left]
  omega

theorem of_mem_fragments (member : f ∈ fragments size t color) :
    f.color = color ∧ t.Spans columnOf f.x ∧ t.Spans (·.z) f.depth := by
  rw [fragments_eq, List.mem_flatMap] at member
  obtain ⟨y, visited, member⟩ := member
  obtain ⟨⟨low, high⟩, -⟩ := mem_rows.mp visited
  obtain ⟨longX, shortX, longZ, shortZ⟩ := spans_sides (sortByHeight t) low high
  rw [crossings_eq] at member
  obtain ⟨colored, depth⟩ := of_mem_row member
  have pixel : (f.x, f.y) ∈ pixels _ := List.mem_map_of_mem member
  obtain ⟨-, column, -⟩ := mem_pixels_row.mp pixel
  have same := sortByHeight_perm t
  exact ⟨colored, (Triangle.spans_congr same).mp (longX.between shortX column),
    (Triangle.spans_congr same).mp (longZ.between shortZ depth)⟩

/-- The fill of a triangle plots no pixel twice. It visits the rows of the picture between its lowest
and its highest corner, and plots in each the columns of the picture between the two sides. So it is
inside the picture, and its pixels and depths are between those of the corners. -/
theorem fragments_fill (size : Size) (t : Triangle ℚ) (color : Color) :
    let s := sortByHeight t
    let drawn := fragments size t color
    (s.corners.Perm t.corners ∧ s.a.y ≤ s.b.y ∧ s.b.y ≤ s.c.y) ∧
    (∀ f ∈ drawn, f.inside size = true ∧ f.color = color ∧
      t.Spans columnOf f.x ∧ t.Spans rowOf f.y ∧ t.Spans (·.z) f.depth) ∧
    (drawn.map fun f => (f.x, f.y)).Nodup ∧
    (∀ y, y ∈ rows size.height s ↔ t.Spans rowOf y ∧ 0 ≤ y ∧ y < size.height) ∧
    ∀ x y, (∃ f ∈ drawn, f.x = x ∧ f.y = y) ↔ y ∈ rows size.height s ∧
      x ∈ Set.uIcc (columnAt (longSide s) y) (columnAt (shortSide s y) y) ∧
      0 ≤ x ∧ x < size.width := by
  intro s drawn
  have sorted : Sorted s := sorted_sortByHeight t
  have same : s.corners.Perm t.corners := sortByHeight_perm t
  have visited (y : Int) : y ∈ rows size.height s ↔ t.Spans rowOf y ∧ 0 ≤ y ∧ y < size.height := by
    rw [mem_rows, ← spans_row_iff sorted, Triangle.spans_congr same]
  refine ⟨⟨same, sorted.low, sorted.high⟩, fun f member => ?_, nodup_pixels size t color, visited,
    fun x y => ?_⟩
  · have pixel : (f.x, f.y) ∈ pixels drawn := List.mem_map_of_mem member
    obtain ⟨row, -, left, right⟩ := mem_pixels.mp pixel
    obtain ⟨spans, low, high⟩ := (visited f.y).mp row
    obtain ⟨colored, column, depth⟩ := of_mem_fragments member
    refine ⟨?_, colored, column, spans, depth⟩
    simp only [Fragment.inside, Bool.and_eq_true, decide_eq_true_eq]
    exact ⟨⟨⟨left, right⟩, low⟩, high⟩
  · rw [← mem_pixels_iff]
    exact mem_pixels

end Fill

end Flipbook

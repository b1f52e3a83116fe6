import Flipbook.Proofs.Raster.Filling

/-!
# The order in which corners are listed

The fill of a triangle sorts the corners by height, so only corners of the same height can be told
apart by the order in which they are listed. Two lowest ones change places without effect. Of two
highest ones the last listed is the end of the long side, and as no side but the one above the middle
corner gets to its end, the topmost row depends on it (`top_row_depends_on_listing`). No other row does
(`pixels_of_listing`).
-/

namespace Flipbook.Fill

variable {size : Size} {color : Color} {s s' t u : Triangle ℚ} {p q : Point ℚ} {x y : Int}

/-! ### The topmost corner -/

/-- The higher of two corners, or the second if they are equally high. -/
def higher (p q : Point ℚ) : Point ℚ :=
  if q.y < p.y then p else q

/-- The last listed of the highest corners. -/
def topCorner (t : Triangle ℚ) : Point ℚ :=
  higher (higher t.a t.b) t.c

theorem higher_cases (p q : Point ℚ) :
    (higher p q = p ∨ higher p q = q) ∧ p.y ≤ (higher p q).y ∧ q.y ≤ (higher p q).y := by
  unfold higher
  split
  · next less => exact ⟨.inl rfl, le_rfl, less.le⟩
  · next le => exact ⟨.inr rfl, not_lt.mp le, le_rfl⟩

theorem topCorner_mem (t : Triangle ℚ) : topCorner t ∈ t.corners := by
  simp only [Triangle.corners, List.mem_cons, List.not_mem_nil, or_false]
  rcases (higher_cases (higher t.a t.b) t.c).1 with same | same
  · rcases (higher_cases t.a t.b).1 with first | second
    · exact .inl (same.trans first)
    · exact .inr (.inl (same.trans second))
  · exact .inr (.inr same)

theorem le_topCorner (member : p ∈ t.corners) : p.y ≤ (topCorner t).y := by
  simp only [Triangle.corners, List.mem_cons, List.not_mem_nil, or_false] at member
  obtain ⟨-, first, second⟩ := higher_cases t.a t.b
  obtain ⟨-, both, last⟩ := higher_cases (higher t.a t.b) t.c
  rcases member with rfl | rfl | rfl
  · exact first.trans both
  · exact second.trans both
  · exact last

theorem lowerFirst_c (t : Triangle ℚ) : (lowerFirst t).c = t.c := by
  unfold lowerFirst
  split
  · rfl
  · rfl

theorem lowerFirst_b (t : Triangle ℚ) : (lowerFirst t).b = higher t.a t.b := by
  unfold lowerFirst higher
  split
  · rfl
  · rfl

theorem higherLast_c (t : Triangle ℚ) : (higherLast t).c = higher t.b t.c := by
  unfold higherLast higher
  split
  · rfl
  · rfl

theorem sortByHeight_c (t : Triangle ℚ) : (sortByHeight t).c = topCorner t := by
  rw [sortByHeight_eq, lowerFirst_c, higherLast_c, lowerFirst_b, lowerFirst_c]
  rfl

/-- If no other corner is as high as the topmost, it is the topmost in every order. -/
theorem topCorner_of_listing (same : u.corners.Perm t.corners)
    (single : ∀ p ∈ t.corners, p ≠ topCorner t → p.y < (topCorner t).y) :
    topCorner u = topCorner t := by
  by_contra other
  have less := single _ (same.mem_iff.mp (topCorner_mem u)) other
  exact absurd (le_topCorner (same.mem_iff.mpr (topCorner_mem t))) (not_le.mpr less)

/-! ### Listings of two and three -/

theorem listing_of_two {α : Type} {a b a' b' : α} (same : [a', b'].Perm [a, b]) :
    a' = a ∧ b' = b ∨ a' = b ∧ b' = a := by
  have first : a' ∈ [a, b] := same.mem_iff.mp List.mem_cons_self
  simp only [List.mem_cons, List.not_mem_nil, or_false] at first
  rcases first with rfl | rfl
  · have rest := (List.perm_cons a').mp same
    exact .inl ⟨rfl, List.singleton_perm_singleton.mp rest⟩
  · have rest := (List.perm_cons a').mp (same.trans (.swap a' a []))
    exact .inr ⟨rfl, List.singleton_perm_singleton.mp rest⟩

theorem listing_of_last {α : Type} {a b c a' b' : α} (same : [a', b', c].Perm [a, b, c]) :
    a' = a ∧ b' = b ∨ a' = b ∧ b' = a :=
  listing_of_two ((List.perm_append_right_iff [c]).mp same)

/-! ### Sorted listings -/

theorem Sorted.le_last (sorted : Sorted s) (member : p ∈ s.corners) : p.y ≤ s.c.y := by
  simp only [Triangle.corners, List.mem_cons, List.not_mem_nil, or_false] at member
  rcases member with rfl | rfl | rfl
  · exact sorted.low.trans sorted.high
  · exact sorted.high
  · exact le_rfl

theorem mem_rows_of_listing {height : Nat} (sorted : Sorted s) (sorted' : Sorted s')
    (same : s'.corners.Perm s.corners) : y ∈ rows height s' ↔ y ∈ rows height s := by
  rw [mem_rows, mem_rows, ← spans_row_iff sorted, ← spans_row_iff sorted',
    Triangle.spans_congr same]

/-- Two equally low corners have the same rows, all of them on the sides to the highest corner. -/
theorem between_swap_low {a b c : Point ℚ} (level : a.y = b.y) (low : rowOf a ≤ y) :
    Between ⟨b, a, c⟩ x y ↔ Between ⟨a, b, c⟩ x y := by
  have row : rowOf b = rowOf a := congrArg Number.wholeRat level.symm
  have short : shortSide ⟨a, b, c⟩ y = ⟨b, c⟩ := if_neg (not_lt.mpr (row.trans_le low))
  have short' : shortSide ⟨b, a, c⟩ y = ⟨a, c⟩ := if_neg (not_lt.mpr low)
  rw [Between, Between, short, short', Set.uIcc_comm]
  rfl

/-- Below two equally high corners all rows are on the sides from the lowest corner. -/
theorem between_swap_high {a b c : Point ℚ} (level : b.y = c.y) (below : y < rowOf c) :
    Between ⟨a, c, b⟩ x y ↔ Between ⟨a, b, c⟩ x y := by
  have row : rowOf c = rowOf b := congrArg Number.wholeRat level.symm
  have short : shortSide ⟨a, b, c⟩ y = ⟨a, b⟩ := if_pos (below.trans_eq row)
  have short' : shortSide ⟨a, c, b⟩ y = ⟨a, c⟩ := if_pos below
  rw [Between, Between, short, short', Set.uIcc_comm]
  rfl

theorem between_of_same_top (sorted : Sorted s) (sorted' : Sorted s')
    (same : s'.corners.Perm s.corners) (top : s'.c = s.c) (low : rowOf s.a ≤ y) :
    Between s' x y ↔ Between s x y := by
  obtain ⟨a, b, c⟩ := s
  obtain ⟨a', b', c'⟩ := s'
  obtain rfl : c' = c := top
  rcases listing_of_last same with ⟨rfl, rfl⟩ | ⟨rfl, rfl⟩
  · rfl
  · exact between_swap_low (le_antisymm sorted.low sorted'.low) low

theorem between_below_top (sorted : Sorted s) (sorted' : Sorted s')
    (same : s'.corners.Perm s.corners) (low : rowOf s.a ≤ y) (below : y < rowOf s.c) :
    Between s' x y ↔ Between s x y := by
  by_cases top : s'.c = s.c
  · exact between_of_same_top sorted sorted' same top low
  have slope : s.a.y < s.c.y := by
    by_contra level
    exact absurd (low.trans_lt below) (not_lt.mpr (Number.wholeRat_mono (not_lt.mp level)))
  have high : s.c.y ≤ s'.c.y := sorted'.le_last (same.mem_iff.mpr (by simp [Triangle.corners]))
  obtain ⟨a, b, c⟩ := s
  obtain ⟨a', b', c'⟩ := s'
  have last : c' ∈ [a, b, c] := same.mem_iff.mp (by simp [Triangle.corners])
  simp only [List.mem_cons, List.not_mem_nil, or_false] at last
  rcases last with rfl | rfl | rfl
  · exact absurd slope (not_lt.mpr high)
  · rcases listing_of_last (same.trans (.cons a (.swap c c' []))) with ⟨rfl, rfl⟩ | ⟨rfl, rfl⟩
    · exact between_swap_high (le_antisymm sorted.high high) below
    · exact absurd slope (not_lt.mpr sorted'.low)
  · exact absurd rfl top

/-- Listing the corners of a triangle in another order changes no pixel below the row of its topmost
corner. It changes none at all if the last listed of the highest corners stays the same, as it does
if one corner is higher than the others. -/
theorem pixels_of_listing (same : u.corners.Perm t.corners) (size : Size) (color : Color) :
    (∀ x y, y ≠ rowOf (topCorner t) →
      ((∃ f ∈ fragments size u color, f.x = x ∧ f.y = y) ↔
        ∃ f ∈ fragments size t color, f.x = x ∧ f.y = y)) ∧
    (topCorner u = topCorner t → ∀ x y,
      ((∃ f ∈ fragments size u color, f.x = x ∧ f.y = y) ↔
        ∃ f ∈ fragments size t color, f.x = x ∧ f.y = y)) ∧
    ((∀ p ∈ t.corners, p ≠ topCorner t → p.y < (topCorner t).y) → topCorner u = topCorner t) := by
  have sorted := sorted_sortByHeight t
  have sorted' := sorted_sortByHeight u
  have listed : (sortByHeight u).corners.Perm (sortByHeight t).corners :=
    (sortByHeight_perm u).trans (same.trans (sortByHeight_perm t).symm)
  have plotted (u : Triangle ℚ) (x y : Int) :
      (∃ f ∈ fragments size u color, f.x = x ∧ f.y = y) ↔ y ∈ rows size.height (sortByHeight u) ∧
        Between (sortByHeight u) x y ∧ 0 ≤ x ∧ x < size.width :=
    mem_pixels_iff.symm.trans mem_pixels
  refine ⟨fun x y lower => ?_, fun top x y => ?_, topCorner_of_listing same⟩
  all_goals
    rw [plotted, plotted, mem_rows_of_listing sorted sorted' listed]
    refine and_congr_right fun visited => and_congr_left fun _ => ?_
    obtain ⟨⟨low, high⟩, -⟩ := mem_rows.mp visited
  · rw [sortByHeight_c] at high
    exact between_below_top sorted sorted' listed low (by rw [sortByHeight_c]; omega)
  · have top : (sortByHeight u).c = (sortByHeight t).c := by
      rw [sortByHeight_c, sortByHeight_c, top]
    exact between_of_same_top sorted sorted' listed top low

/-- A triangle that stands on its tip has one pixel more in its topmost row if the corners of that row
are listed from right to left. -/
theorem top_row_depends_on_listing :
    let tip : Point ℚ := ⟨0, 0, 0, 1⟩
    let left : Point ℚ := ⟨0, 1, 0, 1⟩
    let right : Point ℚ := ⟨2, 1, 0, 1⟩
    let t : Triangle ℚ := ⟨tip, left, right⟩
    let u : Triangle ℚ := ⟨tip, right, left⟩
    u.corners.Perm t.corners ∧
      pixels (fragments ⟨3, 2⟩ t ⟨0, 0, 0⟩) = [(0, 0), (0, 1), (1, 1)] ∧
      pixels (fragments ⟨3, 2⟩ u ⟨0, 0, 0⟩) = [(0, 0), (0, 1), (1, 1), (2, 1)] := by
  intro tip left right t u
  exact ⟨.cons tip (.swap left right []), by decide +kernel, by decide +kernel⟩

/-- Two lowest corners may change places. -/
theorem pixels_of_listed_base :
    let left : Point ℚ := ⟨0, 0, 0, 1⟩
    let right : Point ℚ := ⟨4, 0, 0, 1⟩
    let tip : Point ℚ := ⟨2, 3, 0, 1⟩
    let t : Triangle ℚ := ⟨left, right, tip⟩
    let u : Triangle ℚ := ⟨tip, right, left⟩
    u.corners.Perm t.corners ∧ topCorner u = topCorner t ∧
      ∀ x y, ((∃ f ∈ fragments ⟨8, 8⟩ u ⟨0, 0, 0⟩, f.x = x ∧ f.y = y) ↔
        ∃ f ∈ fragments ⟨8, 8⟩ t ⟨0, 0, 0⟩, f.x = x ∧ f.y = y) := by
  intro left right tip t u
  have same : u.corners.Perm t.corners := List.reverse_perm t.corners
  obtain ⟨-, settled, single⟩ := pixels_of_listing same ⟨8, 8⟩ ⟨0, 0, 0⟩
  have top : topCorner u = topCorner t := single (by decide +kernel)
  exact ⟨same, top, settled top⟩

end Flipbook.Fill

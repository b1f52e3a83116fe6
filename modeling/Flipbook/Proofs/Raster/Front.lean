import Flipbook.Proofs.Number.Order
import Flipbook.Proofs.Raster.Store
import Mathlib.Data.List.Induction
import Mathlib.Data.List.Pairwise

/-!
# What a picture shows

Drawings come down to the fragments they make, so what a pixel shows depends on the fragments over
it alone: it is the latest of the nearest ones, or the background (`shows_front`).
-/

namespace Flipbook

/-- The latest of the nearest fragments over a pixel. -/
def Front (fragments : List (Fragment Float32)) (x y : Int) (f : Fragment Float32) : Prop :=
  f.Over x y ∧ ∃ before after, fragments = before ++ f :: after ∧
    (∀ g ∈ before, g.Over x y → g.depth ≤ f.depth) ∧ ∀ g ∈ after, g.Over x y → g.depth < f.depth

namespace Picture

variable {size : Size} {p : Picture} {f g : Fragment Float32} {x y : Int}
variable {fragments : List (Fragment Float32)}

theorem not_lt_farthest (z : Float32) : ¬ z < farthest := by
  intro below
  have unpacked : farthest.toModel.unpack = .infinity .negative := by rfl
  have nearer : z.toModel.unpack.lt farthest.toModel.unpack = true := of_decide_eq_true below
  rw [unpacked] at nearer
  cases standing : z.toModel.unpack with
  | infinity s =>
    rw [standing] at nearer
    cases s <;> cases nearer
  | _ =>
    rw [standing] at nearer
    cases nearer

/-- The color and the depth of a pixel once fragments were plotted on a background. -/
inductive Shown (background : Color) (fragments : List (Fragment Float32)) (x y : Int) :
    Color → Float32 → Prop
  | front {f : Fragment Float32} (front : Front fragments x y f) :
      Shown background fragments x y f.color f.depth
  | background (free : ∀ f ∈ fragments, ¬ f.Over x y) :
      Shown background fragments x y background farthest

variable {background color : Color} {depth : Float32}

theorem mem_of_front (front : Front fragments x y f) : f ∈ fragments := by
  obtain ⟨_, before, after, rfl, _, _⟩ := front
  simp

/-- No fragment over the pixel is nearer than the one in front. -/
theorem le_of_front (numeric : ∀ g ∈ fragments, g.Over x y → g.depth.isNaN = false)
    (front : Front fragments x y f) : ∀ g ∈ fragments, g.Over x y → g.depth ≤ f.depth := by
  have member := mem_of_front front
  obtain ⟨covers, before, after, rfl, earlier, later⟩ := front
  have real := numeric f member covers
  intro g among above
  have real' := numeric g among above
  rcases List.mem_append.mp among with early | late
  · exact earlier g early above
  rcases List.mem_cons.mp late with rfl | late
  · exact (Number.le_iff_rank real real).mpr le_rfl
  · exact Number.le_of_lt_of_numeric real' real (later g late above)

/-- A fragment beside the pixel or behind what it shows changes nothing. -/
theorem Shown.concat_of_farther (shown : Shown background fragments x y color depth)
    (farther : g.Over x y → g.depth < depth) :
    Shown background (fragments ++ [g]) x y color depth := by
  cases shown with
  | @front f front =>
    obtain ⟨covers, before, after, rfl, earlier, later⟩ := front
    refine .front ⟨covers, before, after ++ [g], by simp, earlier, ?_⟩
    intro h member
    rcases List.mem_append.mp member with member | last
    · exact later h member
    · cases List.mem_singleton.mp last
      exact farther
  | background free =>
    refine .background ?_
    intro h member covers
    rcases List.mem_append.mp member with member | last
    · exact free h member covers
    · cases List.mem_singleton.mp last
      exact not_lt_farthest g.depth (farther covers)

/-- A fragment over the pixel that is not behind what it shows comes to the front. -/
theorem Shown.concat_of_over (shown : Shown background fragments x y color depth)
    (numeric : ∀ h ∈ fragments ++ [g], h.Over x y → h.depth.isNaN = false) (covers : g.Over x y)
    (nearest : ¬ g.depth < depth) :
    Shown background (fragments ++ [g]) x y g.color g.depth := by
  have real : g.depth.isNaN = false := numeric g (by simp) covers
  refine .front ⟨covers, fragments, [], rfl, ?_, nofun⟩
  intro h member above
  cases shown with
  | @front f front =>
    have numeric' : ∀ h ∈ fragments, h.Over x y → h.depth.isNaN = false := by
      intro h member
      exact numeric h (List.mem_append_left _ member)
    have real' := numeric' f (mem_of_front front) front.1
    have behind := le_of_front numeric' front h member above
    exact Number.le_trans_of_numeric (numeric' h member above) real' real behind
      ((Number.not_lt_iff_le real real').mp nearest)
  | background free => exact absurd above (free h member)

theorem pixel?_clear (x : Fin p.size.width) (y : Fin p.size.height) :
    p.clear.pixel? x y = some (p.painted p.background farthest) := by
  obtain ⟨i, here, _⟩ := exists_index x y
  exact Option.map_eq_some_iff.mpr ⟨i, here, Vector.getElem_replicate i.isLt⟩

/-- What a pixel shows once fragments were plotted on a cleared picture. -/
theorem shown_plotAll (x : Fin p.size.width) (y : Fin p.size.height)
    (numeric : ∀ f ∈ fragments, f.Over x y → f.depth.isNaN = false) :
    ∃ color depth, Shown p.background fragments x y color depth ∧
      (p.clear.plotAll fragments).pixel? x y = some (p.painted color depth) := by
  induction fragments using List.reverseRecOn with
  | nil => exact ⟨p.background, farthest, .background nofun, pixel?_clear x y⟩
  | append_singleton fragments g ih =>
    have numeric' : ∀ f ∈ fragments, f.Over x y → f.depth.isNaN = false := by
      intro f member
      exact numeric f (List.mem_append_left _ member)
    obtain ⟨color, depth, shown, here⟩ := ih numeric'
    have painted' : (p.clear.plotAll fragments).painted = p.painted := by
      funext color depth
      rw [painted, maxColor_plotAll]
      rfl
    rw [plotAll_append]
    show ∃ color depth, _ ∧ ((p.clear.plotAll fragments).plot g).pixel? x y = _
    by_cases nearest : g.Over x y ∧ ¬ g.depth < depth
    · obtain ⟨covers, nearest⟩ := nearest
      refine ⟨g.color, g.depth, shown.concat_of_over numeric covers nearest, ?_⟩
      rw [pixel?_plot_of_over here covers nearest, painted']
    · have farther : g.Over x y → g.depth < depth := by
        intro covers
        exact of_not_not fun near => nearest ⟨covers, near⟩
      exact ⟨color, depth, shown.concat_of_farther farther, pixel?_plot_of_farther here farther⟩

/-! ### The order of drawings -/

/-- No two fragments over one pixel of the picture have equal depths. -/
def Untied (size : Size) (fragments : List (Fragment Float32)) : Prop :=
  fragments.Pairwise fun f g =>
    f.inside size = true → g.Over f.x f.y → (f.depth == g.depth) = false

theorem eq_of_untied (numeric : ∀ f ∈ fragments, f.depth.isNaN = false)
    (untied : Untied size fragments) (member : f ∈ fragments) (member' : g ∈ fragments)
    (inside : f.inside size = true) (covers : g.Over f.x f.y) (behind : f.depth ≤ g.depth)
    (before : g.depth ≤ f.depth) : f = g := by
  have real := numeric f member
  have real' := numeric g member'
  have inside' : g.inside size = true := by
    simpa [Fragment.inside, covers.1, covers.2] using inside
  have apart := List.pairwise_iff_getElem.mp untied
  obtain ⟨i, hi, rfl⟩ := List.getElem_of_mem member
  obtain ⟨j, hj, rfl⟩ := List.getElem_of_mem member'
  rcases Nat.lt_trichotomy i j with earlier | rfl | later
  · have unequal := apart i j hi hj earlier inside covers
    rw [(Number.beq_iff_le_and_le real real').mpr ⟨behind, before⟩] at unequal
    cases unequal
  · rfl
  · have unequal := apart j i hj hi later inside' ⟨covers.1.symm, covers.2.symm⟩
    rw [(Number.beq_iff_le_and_le real' real).mpr ⟨before, behind⟩] at unequal
    cases unequal

/-- Without ties a pixel shows the same in every order of the fragments. -/
theorem Shown.eq_of_perm {others : List (Fragment Float32)} {color' : Color} {depth' : Float32}
    {x : Fin size.width} {y : Fin size.height} (perm : others.Perm fragments)
    (numeric : ∀ f ∈ fragments, f.depth.isNaN = false) (untied : Untied size fragments)
    (shown : Shown background fragments x y color depth)
    (shown' : Shown background others x y color' depth') : color = color' ∧ depth = depth' := by
  cases shown with
  | @front f front =>
    cases shown' with
    | @front g front' =>
      have numeric' : ∀ h ∈ others, h.depth.isNaN = false := by
        intro h member
        exact numeric h (perm.mem_iff.mp member)
      have member := mem_of_front front
      have member' := perm.mem_iff.mp (mem_of_front front')
      have behind := le_of_front (fun h among _ => numeric' h among) front' f
        (perm.mem_iff.mpr member) front.1
      have before := le_of_front (fun h among _ => numeric h among) front g member' front'.1
      obtain ⟨sameX, sameY⟩ := front.1
      have inside : f.inside size = true := by
        simp [Fragment.inside, sameX, sameY]
      have covers : g.Over f.x f.y := by
        rw [sameX, sameY]
        exact front'.1
      have same : f = g := eq_of_untied numeric untied member member' inside covers behind before
      exact ⟨congrArg _ same, congrArg _ same⟩
    | background free => exact absurd front.1 (free f (perm.mem_iff.mpr (mem_of_front front)))
  | background free =>
    cases shown' with
    | @front g front' => exact absurd front'.1 (free g (perm.mem_iff.mp (mem_of_front front')))
    | background => exact ⟨rfl, rfl⟩

theorem plotAll_perm {others : List (Fragment Float32)} (perm : others.Perm fragments)
    (numeric : ∀ f ∈ fragments, f.depth.isNaN = false) (untied : Untied p.size fragments) :
    p.clear.plotAll others = p.clear.plotAll fragments := by
  have size_eq (fragments) : (p.clear.plotAll fragments).size = p.size := size_plotAll
  refine eq_of_pixels (by rw [clear_plotAll, clear_plotAll]) ?_
  rw [size_eq]
  intro x y
  have numeric' : ∀ f ∈ others, f.depth.isNaN = false := by
    intro f member
    exact numeric f (perm.mem_iff.mp member)
  obtain ⟨color, depth, shown, here⟩ := shown_plotAll x y fun f member _ => numeric f member
  obtain ⟨color', depth', shown', here'⟩ := shown_plotAll x y fun f member _ => numeric' f member
  obtain ⟨rfl, rfl⟩ := shown.eq_of_perm perm numeric untied shown'
  rw [here, here']

/-! ### The picture that is drawn -/

/-- After any drawings on a cleared picture each pixel shows the latest of the nearest fragments
over it, or the background if there is none, in the row that its height from below says. What
fragments there are depends on the drawings and the size of the picture alone. If no two fragments
over a pixel have equal depths, the drawings give one picture in every order. -/
theorem shows_front (p : Picture) (drawings : List Drawing)
    (numeric : ∀ d ∈ drawings, ∀ f ∈ d.fragments p.size, f.depth.isNaN = false) :
    let drawn := drawings.foldl draw p.clear
    let fragments := drawings.flatMap (Drawing.fragments p.size)
    (∀ (d : Drawing) (q : Picture), q.size = p.size → q.draw d = q.plotAll (d.fragments p.size)) ∧
    (∀ (x : Fin p.size.width) (y : Fin p.size.height),
      let place := (p.size.height - 1 - y) * p.size.width + x
      ∃ color depth, Shown p.background fragments x y color depth ∧
        (drawn.bytesAt place).map UInt8.toNat = capped p.maxColor color ∧
        drawn.depths[place]? = some depth) ∧
    drawn.bytes.length = 3 * p.size.width * p.size.height ∧
    drawn.depths.length = p.size.width * p.size.height ∧
    (Untied p.size fragments →
      ∀ others : List Drawing, others.Perm drawings → others.foldl draw p.clear = drawn) := by
  intro drawn fragments
  have plotted : drawn = p.clear.plotAll fragments := drawAll_eq_plotAll p.clear drawings
  have size_drawn : drawn.size = p.size := by
    rw [plotted]
    exact size_plotAll
  have numeric' : ∀ f ∈ fragments, f.depth.isNaN = false := by
    intro f member
    obtain ⟨d, among, made⟩ := List.mem_flatMap.mp member
    exact numeric d among f made
  refine ⟨?_, ?_, ?_, ?_, ?_⟩
  · intro d q same
    rw [draw_eq_plotAll, same]
  · intro x y
    obtain ⟨color, depth, shown, here⟩ := shown_plotAll x y fun f member _ => numeric' f member
    rw [← plotted] at here
    obtain ⟨stored, deep⟩ := stored_of_pixel? here
    rw [size_drawn, Int.toNat_natCast, Int.toNat_natCast] at stored deep
    refine ⟨color, depth, shown, ?_, deep⟩
    rw [stored]
    exact store_capped p.maxColor color
  · rw [length_bytes, size_drawn]
  · rw [length_depths, size_drawn]
  · intro untied others perm
    have perm' : (others.flatMap (Drawing.fragments p.size)).Perm fragments := perm.flatMap_right _
    rw [drawAll_eq_plotAll, plotted]
    exact plotAll_perm perm' numeric' untied

/-- A line of an overfull green behind a red one leaves the red pixel as it is, whichever of the two
is drawn first. -/
theorem far_line_stays_behind :
    let p : Picture := .new ⟨2, 1⟩ 200 ⟨255, 255, 255⟩
    let near : Drawing := .line ⟨0, 0, 1⟩ ⟨0, 0, 1⟩ ⟨90, 0, 0⟩
    let far : Drawing := .line ⟨0, 0, 0⟩ ⟨1, 0, 0⟩ ⟨0, 300, 0⟩
    (∀ d ∈ [near, far], ∀ f ∈ d.fragments p.size, f.depth.isNaN = false) ∧
      Untied p.size ([near, far].flatMap (Drawing.fragments p.size)) ∧
      ([near, far].foldl draw p.clear).bytes = [90, 0, 0, 0, 200, 0] ∧
      [far, near].foldl draw p.clear = [near, far].foldl draw p.clear := by
  intro p near far
  have fragments : [near, far].flatMap (Drawing.fragments p.size) =
      [⟨0, 0, 1, ⟨90, 0, 0⟩⟩, ⟨0, 0, 0, ⟨0, 300, 0⟩⟩, ⟨1, 0, 0, ⟨0, 300, 0⟩⟩] := by decide
  have numeric : ∀ d ∈ [near, far], ∀ f ∈ d.fragments p.size, f.depth.isNaN = false := by decide
  have untied : Untied p.size ([near, far].flatMap (Drawing.fragments p.size)) := by
    rw [fragments]
    unfold Untied Fragment.Over
    decide
  obtain ⟨_, _, _, _, anyOrder⟩ := shows_front p [near, far] numeric
  exact ⟨numeric, untied, by decide, anyOrder untied [far, near] (.swap near far [])⟩

end Picture

end Flipbook

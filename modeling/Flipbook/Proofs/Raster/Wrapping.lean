import Flipbook.Proofs.Number.Truncation
import Flipbook.Proofs.Raster.Stepping

/-!
# Lines in machine words

On the way of a line no number is greater than its doubled error. If that fits a word, the line is the
same as in whole numbers of any size (`fragments_follow_line`). If it does not, the line leaves its
course, also when twice the sum of its two lengths is a word (`long_line_leaves_course`).
-/

namespace Flipbook.Line

open Number

variable {α : Type} [Add α] [Sub α] [Div α] [GridNumber α] {a b : PixelPoint α} {k : Nat} {n : Int}

/-- The pixels of the two ends are words, and so is the doubled error all the way. Along an axis it is
twice the length of the line, and else less than three times the longer length. -/
structure Fits (a b : PixelPoint α) : Prop where
  first : IsWord a.x ∧ IsWord a.y
  last : IsWord b.x ∧ IsWord b.y
  doubled : 2 * stepCount a b ≤ wordMax
  tilted : a.x ≠ b.x → a.y ≠ b.y →
    3 * stepCount a b ≤ wordMax + 2 * min (b.x - a.x).natAbs (b.y - a.y).natAbs

omit [Add α] [Sub α] [Div α] [GridNumber α] in
theorem Fits.sides (fits : Fits a b) :
    2 * (b.x - a.x).natAbs ≤ wordMax ∧ 2 * (b.y - a.y).natAbs ≤ wordMax := by
  have doubled := fits.doubled
  rw [stepCount] at doubled
  omega

/-- A number that is small enough is kept. -/
theorem wrap_small (small : n.natAbs ≤ wordMax) : wrap n = n :=
  wrap_eq ⟨by unfold wordMin wordMax at *; omega, by omega⟩

theorem doubled_error_le (fits : Fits a b) (early : k ≤ stepCount a b) :
    (2 * (stateAt a b k).error).natAbs ≤ wordMax := by
  obtain ⟨-, -, doubled, tilted⟩ := fits
  obtain ⟨i, j, after⟩ := exists_after a b k
  obtain ⟨countX, countY, -⟩ := after.reach early
  have flat := after.flat
  have steep := after.steep
  rw [dx_exact, dy_exact] at flat steep
  rw [stepCount] at doubled tilted
  -- Without one of the two distances the error never changes.
  have straight (still : a.x = b.x ∨ a.y = b.y) :
      (stateAt a b k).error = (b.x - a.x).natAbs + -(b.y - a.y).natAbs := by
    rw [after.error, dx_exact, dy_exact]
    rcases still with upright | level
    · obtain ⟨rfl, noWidth⟩ : i = 0 ∧ (b.x - a.x).natAbs = 0 := by omega
      simp [noWidth]
    · obtain ⟨rfl, noHeight⟩ : j = 0 ∧ (b.y - a.y).natAbs = 0 := by omega
      simp [noHeight]
  omega

theorem isWord_pixel (fits : Fits a b) (early : k ≤ stepCount a b) :
    IsWord (stateAt a b k).x ∧ IsWord (stateAt a b k).y := by
  obtain ⟨⟨ax, ay⟩, ⟨bx, bY⟩, -, -⟩ := fits
  obtain ⟨i, j, after⟩ := exists_after a b k
  obtain ⟨inX, inY, -, -⟩ := after.near ⟨0, 0, 0⟩ early
  simp only [State.fragment] at inX inY
  unfold IsWord at *
  omega

omit [Add α] in
/-- Nothing is lost before the first step. -/
theorem course_eq (fits : Fits a b) : Course.of wrap a b = { Course.of id a b with keep := wrap } := by
  obtain ⟨across, up⟩ := fits.sides
  have dx : wrap (wrap (b.x - a.x)).natAbs = (b.x - a.x).natAbs := by
    rw [wrap_small (n := b.x - a.x) (by omega), wrap_small (by omega)]
  have height : wrap (wrap (b.y - a.y)).natAbs = (b.y - a.y).natAbs := by
    rw [wrap_small (n := b.y - a.y) (by omega), wrap_small (by omega)]
  have dy : wrap (-((b.y - a.y).natAbs : Int)) = -(b.y - a.y).natAbs := wrap_small (by omega)
  have dy' : wrap (b.y - a.y).natAbs = (b.y - a.y).natAbs := wrap_small (by omega)
  simp only [Course.of, dx, height, dy, neg_neg, dy', id]

omit [Sub α] [Div α] [GridNumber α] in
/-- A step that loses nothing is a step in whole numbers of any size. -/
theorem step_of_kept (c : Course α) (s : State α) (doubled : c.keep (2 * s.error) = 2 * s.error)
    (changed : ∀ change ∈ [c.dy, c.dx, c.dy + c.dx], c.keep (s.error + change) = s.error + change)
    (x : c.dy ≤ 2 * s.error → c.keep (s.x + c.stepX) = s.x + c.stepX)
    (y : 2 * s.error ≤ c.dx → c.keep (s.y + c.stepY) = s.y + c.stepY) :
    c.step s = { c with keep := id }.step s := by
  have down := changed c.dy (by simp)
  have up := changed c.dx (by simp)
  have both := changed (c.dy + c.dx) (by simp)
  rw [← add_assoc] at both
  rw [step_exact (c := { c with keep := id }) rfl]
  simp only [Course.step, doubled]
  by_cases alongX : c.dy ≤ 2 * s.error <;> by_cases alongY : 2 * s.error ≤ c.dx <;>
    simp [alongX, alongY, x, y, down, up, both]

/-- Nothing is lost by a step. -/
theorem step_eq (fits : Fits a b) (early : k < stepCount a b) :
    (Course.of wrap a b).step (stateAt a b k) = stateAt a b (k + 1) := by
  have error := doubled_error_le fits early.le
  obtain ⟨across, up⟩ := fits.sides
  obtain ⟨x, y⟩ := isWord_pixel fits (Nat.succ_le_of_lt early)
  rw [stateAt_succ, step_exact rfl] at x y
  rw [course_eq fits, stateAt_succ]
  refine step_of_kept _ _ (wrap_small error) ?_ (fun along => ?_) (fun along => ?_)
  · simp only [dx_exact, dy_exact, List.forall_mem_cons]
    exact ⟨wrap_small (by omega), wrap_small (by omega), wrap_small (by omega), List.forall_mem_nil _⟩
  · rw [if_pos along] at x
    exact wrap_eq x
  · rw [if_pos along] at y
    exact wrap_eq y

theorem iterate_eq (fits : Fits a b) (early : k ≤ stepCount a b) :
    (Course.of wrap a b).step^[k] ((Course.of wrap a b).start a) = stateAt a b k := by
  induction k with
  | zero =>
    obtain ⟨across, up⟩ := fits.sides
    have first : wrap ((Course.of id a b).dx + (Course.of id a b).dy) =
        (Course.of id a b).dx + (Course.of id a b).dy := by
      rw [dx_exact, dy_exact]
      exact wrap_small (by omega)
    show (Course.of wrap a b).start a = _
    rw [course_eq fits]
    exact congrArg (State.mk a.x a.y a.depth) first
  | succ k ih => rw [Function.iterate_succ_apply', ih (by omega), step_eq fits early]

theorem onWay_iterate (fits : Fits a b) (early : k < stepCount a b) :
    ¬ (Course.of wrap a b).Arrived ((Course.of wrap a b).step^[k] ((Course.of wrap a b).start a)) := by
  rw [iterate_eq fits early.le]
  exact onWay_stateAt early

theorem arrived_iterate (fits : Fits a b) :
    (Course.of wrap a b).Arrived
      ((Course.of wrap a b).step^[stepCount a b] ((Course.of wrap a b).start a)) := by
  rw [iterate_eq fits le_rfl]
  exact arrived_last

/-- The loop in words runs through the states of the line in whole numbers of any size. -/
theorem runs_wrap (fits : Fits a b) :
    (Course.of wrap a b).Runs ((Course.of wrap a b).start a) (route a b) := by
  have run : route a b = (List.range (stepCount a b + 1)).map fun k =>
      (Course.of wrap a b).step^[k] ((Course.of wrap a b).start a) :=
    List.map_congr_left fun k inside => (iterate_eq fits (by simpa [Nat.lt_succ_iff] using inside)).symm
  rw [run]
  exact runs_iterate (fun _ => onWay_iterate fits) (arrived_iterate fits)

theorem states_wrap (fits : Fits a b) : states wrap a b = route a b :=
  (runs_wrap fits).unique
    (runs_walk (le_max_left ..) (fun _ => onWay_iterate fits) (arrived_iterate fits))

theorem fragments_wrap (fits : Fits a b) (color : Color) :
    fragments wrap a b color = fragments id a b color := by
  rw [fragments, fragments, states_wrap fits, states_exact]

/-- If the doubled error fits a word all the way, nothing that the loop of a line computes is lost. The
loop ends, and only at its last pixel: after as many steps as the longer axis is long. Each step goes
one pixel towards the end along that axis, and at most one along the other, and no pixel is more than
half a pixel off the ideal line. -/
theorem fragments_follow_line (color : Color) (a b : PixelPoint α) (fits : Fits a b) :
    let course := Course.of wrap a b
    let exact := Course.of id a b
    let length := stepCount a b
    let plotted := fragments wrap a b color
    let rise := (b.depth - a.depth) / GridNumber.ofInt (max length 1)
    (∃ run, course.Runs (course.start a) run ∧
      (∀ other, course.Runs (course.start a) other → other = run) ∧
      exact.Runs (exact.start a) run ∧
      (∀ s ∈ run, IsWord (2 * s.error)) ∧
      plotted = run.map fun s => ⟨s.x, s.y, s.depth, color⟩) ∧
    plotted.length = length + 1 ∧
    (∃ f, plotted.head? = some f ∧ f.x = a.x ∧ f.y = a.y) ∧
    (∃ f, plotted.getLast? = some f ∧ f.x = b.x ∧ f.y = b.y) ∧
    (∀ k f, plotted[k]? = some f →
      f.depth = (· + rise)^[k] a.depth ∧ f.color = color ∧ Near a b f) ∧
    (∀ k f g, plotted[k]? = some f → plotted[k + 1]? = some g → Advances a b f g) := by
  intro course exact length plotted rise
  have same : plotted = fragments id a b color := fragments_wrap fits color
  have count : plotted.length = length + 1 := by
    rw [same]
    exact length_fragments color
  refine ⟨⟨route a b, runs_wrap fits, fun _ => (runs_wrap fits).unique, runs_route a b, ?_, ?_⟩, count,
    ?_, ?_, ?_, ?_⟩
  · intro s member
    obtain ⟨n, early, rfl⟩ := mem_route_iff.mp member
    have small := doubled_error_le fits early
    exact ⟨by unfold wordMin wordMax at *; omega, by omega⟩
  · show (states wrap a b).map _ = _
    rw [states_wrap fits]
    rfl
  · rw [List.head?_eq_getElem?, same]
    exact ⟨_, getElem?_fragments.mpr ⟨Nat.zero_le _, rfl⟩, rfl, rfl⟩
  · rw [List.getLast?_eq_getElem?, count, same]
    exact ⟨_, getElem?_fragments.mpr ⟨le_rfl, rfl⟩, arrived_last⟩
  · intro k f here
    rw [same] at here
    have near := near_of_getElem? color here
    obtain ⟨-, rfl⟩ := getElem?_fragments.mp here
    have depth := depth_iterate (c := Course.of id a b) (s := (Course.of id a b).start a) k
    rw [stepDepth_exact] at depth
    exact ⟨depth, rfl, near⟩
  · intro k f g here there
    rw [same] at here there
    exact advances_of_getElem? color here there

/-- A line that fits, with a slope. -/
theorem short_line_arrives :
    let a : PixelPoint Float32 := ⟨-2, 1, 0⟩
    let b : PixelPoint Float32 := ⟨5, 4, 0⟩
    Fits a b ∧ (fragments wrap a b ⟨0, 0, 0⟩).length = 8 ∧
      ∃ f, (fragments wrap a b ⟨0, 0, 0⟩).getLast? = some f ∧ f.x = 5 ∧ f.y = 4 := by
  intro a b
  have fits : Fits a b := ⟨by decide, by decide, by decide, fun _ _ => by decide⟩
  obtain ⟨-, count, -, last, -⟩ := fragments_follow_line ⟨0, 0, 0⟩ a b fits
  exact ⟨fits, count, last⟩

/-- Twice the sum of the two lengths of this line is a word. After five steps its doubled error is not,
and the sixth step goes along the shorter axis only. -/
theorem long_line_leaves_course :
    let a : PixelPoint Float32 := ⟨0, 0, 0⟩
    let b : PixelPoint Float32 := ⟨3689348814741910320, 368934881474191032, 0⟩
    let plotted := fragments wrap a b ⟨0, 0, 0⟩
    2 * (|b.x - a.x| + |b.y - a.y|) ≤ wordMax ∧ |b.y - a.y| < |b.x - a.x| ∧
      plotted[5]?.map (fun f => (f.x, f.y)) = some (5, 1) ∧
      plotted[6]?.map (fun f => (f.x, f.y)) = some (5, 2) := by
  decide +kernel

end Flipbook.Line

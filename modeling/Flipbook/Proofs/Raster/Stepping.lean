import Flipbook.Raster.Line
import Mathlib.Algebra.Order.Field.Rat
import Mathlib.Algebra.Order.Ring.Abs
import Mathlib.Tactic.FieldSimp
import Mathlib.Tactic.Linarith
import Mathlib.Tactic.Ring

/-!
# Stepping along a line

The error term of a line keeps its pixels within half a pixel of the ideal line, along the axis on
which the line is shorter. That is enough for the line to meet its last pixel exactly, after as many
steps as the longer axis is long (`runs_states`). All this is about whole numbers of any size.
-/

namespace Flipbook.Line

variable {α : Type} [Add α] {c : Course α} {s : State α} {a b : PixelPoint α}

/-! ### The loop -/

/-- The states that the loop runs through. Nothing but the last pixel ends it. -/
inductive Course.Runs (c : Course α) : State α → List (State α) → Prop
  | arrived {s : State α} (there : c.Arrived s) : c.Runs s [s]
  | further {s : State α} {later : List (State α)} (onWay : ¬ c.Arrived s)
      (more : c.Runs (c.step s) later) : c.Runs s (s :: later)

theorem Course.Runs.unique {run run' : List (State α)} (runs : c.Runs s run)
    (runs' : c.Runs s run') : run' = run := by
  induction runs generalizing run' with
  | arrived there =>
    cases runs' with
    | arrived => rfl
    | further onWay => exact absurd there onWay
  | further onWay _ ih =>
    cases runs' with
    | arrived there => exact absurd there onWay
    | further _ more => rw [ih more]

/-- A walk that has steps enough is the run of the loop. -/
theorem runs_walk {n m : Nat} (enough : n ≤ m) (before : ∀ k < n, ¬ c.Arrived (c.step^[k] s))
    (there : c.Arrived (c.step^[n] s)) : c.Runs s (c.walk m s) := by
  induction n generalizing m s with
  | zero =>
    have walk : c.walk m s = [s] := by
      cases m with
      | zero => rfl
      | succ m => exact if_pos there
    rw [walk]
    exact .arrived there
  | succ n ih =>
    obtain ⟨m, rfl⟩ : ∃ k, m = k + 1 := ⟨m - 1, by omega⟩
    have onWay : ¬ c.Arrived s := before 0 (Nat.succ_pos n)
    have walk : c.walk (m + 1) s = s :: c.walk m (c.step s) := if_neg onWay
    rw [walk]
    exact .further onWay (ih (by omega) (fun k lower => before (k + 1) (by omega)) there)

theorem runs_iterate {n : Nat} (before : ∀ k < n, ¬ c.Arrived (c.step^[k] s))
    (there : c.Arrived (c.step^[n] s)) :
    c.Runs s ((List.range (n + 1)).map fun k => c.step^[k] s) := by
  induction n generalizing s with
  | zero => exact .arrived there
  | succ n ih =>
    have onWay : ¬ c.Arrived s := before 0 (Nat.succ_pos n)
    have later := ih (fun k lower => before (k + 1) (by omega)) there
    rw [List.range_succ_eq_map, List.map_cons, List.map_map]
    exact .further onWay later

/-- Every state of a walk is reached by some steps. -/
theorem exists_iterate_of_mem_walk {n : Nat} {t : State α} (member : t ∈ c.walk n s) :
    ∃ k, c.step^[k] s = t := by
  induction n generalizing s with
  | zero => exact ⟨0, (List.mem_singleton.mp member).symm⟩
  | succ n ih =>
    rw [Course.walk] at member
    split at member
    · exact ⟨0, (List.mem_singleton.mp member).symm⟩
    · rcases List.mem_cons.mp member with rfl | later
      · exact ⟨0, rfl⟩
      · obtain ⟨k, reached⟩ := ih later
        exact ⟨k + 1, reached⟩

theorem depth_iterate (k : Nat) : (c.step^[k] s).depth = (· + c.stepDepth)^[k] s.depth := by
  induction k with
  | zero => rfl
  | succ k ih =>
    rw [Function.iterate_succ_apply', Function.iterate_succ_apply', ← ih]
    rfl

/-- A step that keeps whole numbers of any size. -/
theorem step_exact (exact : c.keep = id) (s : State α) : c.step s =
    { x := if c.dy ≤ 2 * s.error then s.x + c.stepX else s.x
      y := if 2 * s.error ≤ c.dx then s.y + c.stepY else s.y
      depth := s.depth + c.stepDepth
      error := s.error + (if c.dy ≤ 2 * s.error then c.dy else 0) +
        (if 2 * s.error ≤ c.dx then c.dx else 0) } := by
  simp only [Course.step, exact, id]
  congr 1
  split <;> split <;> simp

/-! ### The error term -/

/-- Where a line is after `k` steps, `i` of them along the first axis and `j` along the second. On
the longer axis every step counts. On the other one the error term, in halves, is the distance from
the ideal line in units of the longer axis, so its two bounds are those of half a pixel. -/
structure Course.After (c : Course α) (a : PixelPoint α) (k i j : Nat) (s : State α) : Prop where
  x : s.x = a.x + i * c.stepX
  y : s.y = a.y + j * c.stepY
  error : s.error = (j + 1) * c.dx + (i + 1) * c.dy
  countX : i ≤ k
  countY : j ≤ k
  flat : -c.dy ≤ c.dx →
    i = k ∧ c.dx + 2 * c.dy ≤ 2 * s.error ∧ 2 * s.error ≤ 3 * c.dx + 2 * c.dy
  steep : c.dx ≤ -c.dy →
    j = k ∧ 2 * c.dx + 3 * c.dy ≤ 2 * s.error ∧ 2 * s.error ≤ 2 * c.dx + c.dy

variable {k i j : Nat}

theorem Course.After.step (exact : c.keep = id) (dx : 0 ≤ c.dx) (dy : c.dy ≤ 0)
    (after : c.After a k i j s) :
    c.After a (k + 1) (if c.dy ≤ 2 * s.error then i + 1 else i)
      (if 2 * s.error ≤ c.dx then j + 1 else j) (c.step s) where
  x := by
    simp only [step_exact exact]
    split
    · rw [after.x]
      push_cast
      ring
    · exact after.x
  y := by
    simp only [step_exact exact]
    split
    · rw [after.y]
      push_cast
      ring
    · exact after.y
  error := by
    simp only [step_exact exact]
    rw [after.error]
    split <;> split <;> (push_cast; ring)
  countX := by
    have := after.countX
    split <;> omega
  countY := by
    have := after.countY
    split <;> omega
  flat level := by
    obtain ⟨all, low, high⟩ := after.flat level
    have alongX : c.dy ≤ 2 * s.error := by omega
    simp only [step_exact exact, if_pos alongX]
    refine ⟨congrArg (· + 1) all, ?_⟩
    split <;> omega
  steep level := by
    obtain ⟨all, low, high⟩ := after.steep level
    have alongY : 2 * s.error ≤ c.dx := by omega
    simp only [step_exact exact, if_pos alongY]
    refine ⟨congrArg (· + 1) all, ?_⟩
    split <;> omega

/-! ### The ideal line -/

/-- Where the ideal line from `(u₀, v₀)` to `(u₁, v₁)` is over `u`. -/
def ideal (u₀ v₀ u₁ v₁ u : Int) : ℚ :=
  v₀ + (u - u₀) * ((v₁ - v₀) / (u₁ - u₀))

theorem near_ideal {u₀ v₀ u₁ v₁ u v i j long short turnU turnV : Int}
    (unitU : turnU = 1 ∨ turnU = -1) (unitV : turnV = 1 ∨ turnV = -1)
    (hu : u = u₀ + i * turnU) (hv : v = v₀ + j * turnV)
    (hu₁ : u₁ = u₀ + long * turnU) (hv₁ : v₁ = v₀ + short * turnV) (pos : 0 < long)
    (low : -long ≤ 2 * (j * long - i * short)) (high : 2 * (j * long - i * short) ≤ long) :
    |(v : ℚ) - ideal u₀ v₀ u₁ v₁ u| ≤ 1 / 2 := by
  have pos' : (0 : ℚ) < long := by exact_mod_cast pos
  have turns : (turnU : ℚ) ≠ 0 := by rcases unitU with rfl | rfl <;> simp
  have unit : |(turnV : ℚ)| = 1 := by rcases unitV with rfl | rfl <;> simp
  have lag : (v : ℚ) - ideal u₀ v₀ u₁ v₁ u = turnV * ((j * long - i * short) / long) := by
    rw [ideal, hu, hv, hu₁, hv₁]
    push_cast
    field_simp
    ring
  rw [lag, abs_mul, unit, one_mul, abs_le, le_div_iff₀ pos', div_le_iff₀ pos']
  have low' : -(long : ℚ) ≤ 2 * (j * long - i * short) := by exact_mod_cast low
  have high' : 2 * ((j : ℚ) * long - i * short) ≤ long := by exact_mod_cast high
  constructor <;> linarith

/-! ### Both ends -/

/-- A line that has gone `i` of `long` steps, at most half a pixel off, has not gone too far on its
shorter axis, and is at the end there when it is at the end of the longer one. -/
theorem reach_of_close {long short i j : Nat} (level : short ≤ long) (count : j ≤ i)
    (early : i ≤ long) (low : -(long : Int) ≤ 2 * (j * long - i * short))
    (high : 2 * (j * long - i * short) ≤ (long : Int)) : j ≤ short ∧ (i = long → j = short) := by
  rcases Nat.eq_zero_or_pos long with still | moving
  · omega
  have pos : (0 : Int) < long := by omega
  constructor
  · have reach : (i : Int) * short ≤ long * short :=
      mul_le_mul_of_nonneg_right (by omega) (by omega)
    have above : (2 * j : Int) * long ≤ (2 * short + 1) * long := by linarith
    have := le_of_mul_le_mul_right above pos
    omega
  · rintro rfl
    have below : (2 * short - 1 : Int) * i ≤ 2 * j * i := by linarith
    have above : (2 * j : Int) * i ≤ (2 * short + 1) * i := by linarith
    have := le_of_mul_le_mul_right below pos
    have := le_of_mul_le_mul_right above pos
    omega

variable [Sub α] [Div α] [GridNumber α]

omit [Add α] in
theorem dx_exact (a b : PixelPoint α) : (Course.of id a b).dx = (b.x - a.x).natAbs :=
  rfl

omit [Add α] in
theorem dy_exact (a b : PixelPoint α) : (Course.of id a b).dy = -(b.y - a.y).natAbs :=
  rfl

omit [Add α] in
theorem dx_eq (keep : Int → Int) (a b : PixelPoint α) :
    (Course.of keep a b).dx = keep (keep (b.x - a.x)).natAbs :=
  rfl

omit [Add α] in
theorem stepDepth_eq (keep : Int → Int) (a b : PixelPoint α) :
    let c := Course.of keep a b
    c.stepDepth = (b.depth - a.depth) / GridNumber.ofInt (max (max c.dx (keep (-c.dy))) 1) :=
  rfl

omit [Add α] in
theorem stepDepth_exact (a b : PixelPoint α) : (Course.of id a b).stepDepth =
    (b.depth - a.depth) / GridNumber.ofInt (max (stepCount a b) 1) := by
  simp only [Course.of, id, neg_neg, stepCount]
  push_cast
  rfl

omit [Add α] in
theorem endX_eq (a b : PixelPoint α) :
    b.x = a.x + (b.x - a.x).natAbs * (Course.of id a b).stepX := by
  simp only [Course.of]
  split <;> omega

omit [Add α] in
theorem endY_eq (a b : PixelPoint α) :
    b.y = a.y + (b.y - a.y).natAbs * (Course.of id a b).stepY := by
  simp only [Course.of]
  split <;> omega

omit [Add α] in
theorem stepX_unit (a b : PixelPoint α) :
    (Course.of id a b).stepX = 1 ∨ (Course.of id a b).stepX = -1 := by
  simp only [Course.of]
  split <;> simp

omit [Add α] in
theorem stepY_unit (a b : PixelPoint α) :
    (Course.of id a b).stepY = 1 ∨ (Course.of id a b).stepY = -1 := by
  simp only [Course.of]
  split <;> simp

omit [Add α] in
theorem stepX_eq_sign (apart : a.x ≠ b.x) : (Course.of id a b).stepX = (b.x - a.x).sign := by
  simp only [Course.of]
  split
  · exact (Int.sign_eq_one_of_pos (by omega)).symm
  · exact (Int.sign_eq_neg_one_of_neg (by omega)).symm

omit [Add α] in
theorem stepY_eq_sign (apart : a.y ≠ b.y) : (Course.of id a b).stepY = (b.y - a.y).sign := by
  simp only [Course.of]
  split
  · exact (Int.sign_eq_one_of_pos (by omega)).symm
  · exact (Int.sign_eq_neg_one_of_neg (by omega)).symm

omit [Add α] in
theorem dx_nonneg (a b : PixelPoint α) : 0 ≤ (Course.of id a b).dx :=
  Int.natCast_nonneg _

omit [Add α] in
theorem dy_nonpos (a b : PixelPoint α) : (Course.of id a b).dy ≤ 0 :=
  Int.neg_nonpos_of_nonneg (Int.natCast_nonneg _)

/-- Where the line from `a` to `b` is after `k` steps. -/
def stateAt (a b : PixelPoint α) (k : Nat) : State α :=
  (Course.of id a b).step^[k] ((Course.of id a b).start a)

theorem stateAt_succ (a b : PixelPoint α) (k : Nat) :
    stateAt a b (k + 1) = (Course.of id a b).step (stateAt a b k) :=
  Function.iterate_succ_apply' ..

omit [Add α] in
theorem after_start (a b : PixelPoint α) :
    (Course.of id a b).After a 0 0 0 ((Course.of id a b).start a) := by
  have dx := dx_nonneg a b
  have dy := dy_nonpos a b
  have error : ((Course.of id a b).start a).error = (Course.of id a b).dx + (Course.of id a b).dy := rfl
  refine ⟨by simp [Course.start], by simp [Course.start], by simp [error], le_rfl, le_rfl, ?_, ?_⟩
  · intro level
    omega
  · intro level
    omega

theorem exists_after (a b : PixelPoint α) (k : Nat) :
    ∃ i j, (Course.of id a b).After a k i j (stateAt a b k) := by
  induction k with
  | zero => exact ⟨0, 0, after_start a b⟩
  | succ k ih =>
    obtain ⟨i, j, after⟩ := ih
    rw [stateAt_succ]
    exact ⟨_, _, after.step rfl (dx_nonneg a b) (dy_nonpos a b)⟩

namespace Course.After

variable (after : (Course.of id a b).After a k i j s)
include after

omit [Add α] in
theorem flat_lag (level : (b.y - a.y).natAbs ≤ (b.x - a.x).natAbs) :
    i = k ∧ -((b.x - a.x).natAbs : Int) ≤
        2 * (j * (b.x - a.x).natAbs - i * (b.y - a.y).natAbs) ∧
      2 * (j * (b.x - a.x).natAbs - i * (b.y - a.y).natAbs) ≤ ((b.x - a.x).natAbs : Int) := by
  obtain ⟨all, low, high⟩ := after.flat (by rw [dx_exact, dy_exact]; omega)
  rw [after.error, dx_exact, dy_exact] at low high
  refine ⟨all, ?_, ?_⟩ <;> linarith

omit [Add α] in
theorem steep_lag (level : (b.x - a.x).natAbs ≤ (b.y - a.y).natAbs) :
    j = k ∧ -((b.y - a.y).natAbs : Int) ≤
        2 * (i * (b.y - a.y).natAbs - j * (b.x - a.x).natAbs) ∧
      2 * (i * (b.y - a.y).natAbs - j * (b.x - a.x).natAbs) ≤ ((b.y - a.y).natAbs : Int) := by
  obtain ⟨all, low, high⟩ := after.steep (by rw [dx_exact, dy_exact]; omega)
  rw [after.error, dx_exact, dy_exact] at low high
  refine ⟨all, ?_, ?_⟩ <;> linarith

omit [Add α] in
/-- A line does not leave the box of its two ends. After as many steps as the longer axis is long
it is done on both. -/
theorem reach (early : k ≤ stepCount a b) :
    i ≤ (b.x - a.x).natAbs ∧ j ≤ (b.y - a.y).natAbs ∧
      (k = stepCount a b → i = (b.x - a.x).natAbs ∧ j = (b.y - a.y).natAbs) := by
  have countX := after.countX
  have countY := after.countY
  rw [stepCount] at early ⊢
  rcases Nat.le_total (b.y - a.y).natAbs (b.x - a.x).natAbs with level | level
  · obtain ⟨rfl, low, high⟩ := after.flat_lag level
    obtain ⟨inside, last⟩ := reach_of_close level countY (by omega) low high
    omega
  · obtain ⟨rfl, low, high⟩ := after.steep_lag level
    obtain ⟨inside, last⟩ := reach_of_close level countX (by omega) low high
    omega

omit [Add α] in
theorem arrived_iff :
    (Course.of id a b).Arrived s ↔ i = (b.x - a.x).natAbs ∧ j = (b.y - a.y).natAbs := by
  have endX := endX_eq a b
  have endY := endY_eq a b
  have hx := after.x
  have hy := after.y
  show s.x = b.x ∧ s.y = b.y ↔ _
  rcases stepX_unit a b with turnX | turnX <;> rcases stepY_unit a b with turnY | turnY
  all_goals
    rw [turnX] at endX hx
    rw [turnY] at endY hy
    omega

end Course.After

theorem arrived_stateAt_iff {n : Nat} (early : n ≤ stepCount a b) :
    (Course.of id a b).Arrived (stateAt a b n) ↔ n = stepCount a b := by
  obtain ⟨i, j, after⟩ := exists_after a b n
  obtain ⟨-, -, last⟩ := after.reach early
  have countX := after.countX
  have countY := after.countY
  rw [after.arrived_iff]
  refine ⟨fun both => ?_, last⟩
  rw [stepCount] at early ⊢
  omega

theorem arrived_last : (Course.of id a b).Arrived (stateAt a b (stepCount a b)) :=
  (arrived_stateAt_iff le_rfl).mpr rfl

theorem onWay_stateAt {n : Nat} (early : n < stepCount a b) :
    ¬ (Course.of id a b).Arrived (stateAt a b n) := by
  rw [arrived_stateAt_iff (Nat.le_of_lt early)]
  exact Nat.ne_of_lt early

/-- The states of a line, one for each step. -/
def route (a b : PixelPoint α) : List (State α) :=
  (List.range (stepCount a b + 1)).map (stateAt a b)

theorem runs_route (a b : PixelPoint α) :
    (Course.of id a b).Runs ((Course.of id a b).start a) (route a b) :=
  runs_iterate (fun _ => onWay_stateAt) (arrived_last)

theorem states_exact (a b : PixelPoint α) : states id a b = route a b :=
  (runs_route a b).unique
    (runs_walk (le_max_left ..) (fun _ => onWay_stateAt) (arrived_last))

theorem mem_route_iff : s ∈ route a b ↔ ∃ n ≤ stepCount a b, stateAt a b n = s := by
  rw [route, List.mem_map]
  simp only [List.mem_range, Nat.lt_succ_iff]

/-! ### The fragments of a line -/

/-- The fragment lies in the box of two ends, and at most half a pixel off their ideal line. -/
structure Near (a b : PixelPoint α) (f : Fragment α) : Prop where
  inX : min a.x b.x ≤ f.x ∧ f.x ≤ max a.x b.x
  inY : min a.y b.y ≤ f.y ∧ f.y ≤ max a.y b.y
  flat : (b.y - a.y).natAbs ≤ (b.x - a.x).natAbs →
    |(f.y : ℚ) - ideal a.x a.y b.x b.y f.x| ≤ 1 / 2
  steep : (b.x - a.x).natAbs ≤ (b.y - a.y).natAbs →
    |(f.x : ℚ) - ideal a.y a.x b.y b.x f.y| ≤ 1 / 2

/-- The second fragment is one pixel further along the longer axis than the first, and no pixel or
one along the other. -/
structure Advances (a b : PixelPoint α) (f g : Fragment α) : Prop where
  x : g.x = f.x ∨ g.x = f.x + (b.x - a.x).sign
  y : g.y = f.y ∨ g.y = f.y + (b.y - a.y).sign
  flat : (b.y - a.y).natAbs ≤ (b.x - a.x).natAbs → a.x ≠ b.x ∧ g.x = f.x + (b.x - a.x).sign
  steep : (b.x - a.x).natAbs ≤ (b.y - a.y).natAbs → a.y ≠ b.y ∧ g.y = f.y + (b.y - a.y).sign

theorem getElem?_fragments {n : Nat} {color : Color} {f : Fragment α} :
    (fragments id a b color)[n]? = some f ↔ n ≤ stepCount a b ∧
      (stateAt a b n).fragment color = f := by
  rw [fragments, states_exact, route, List.map_map, List.getElem?_map, Option.map_eq_some_iff]
  constructor
  · rintro ⟨m, inside, same⟩
    obtain ⟨lower, rfl⟩ := List.getElem?_eq_some_iff.mp inside
    rw [List.getElem_range] at same
    rw [List.length_range] at lower
    exact ⟨Nat.le_of_lt_succ lower, same⟩
  · rintro ⟨lower, same⟩
    exact ⟨n, List.getElem?_range (Nat.lt_succ_of_le lower), same⟩

variable (color : Color)

omit [Add α] in
theorem Course.After.near (after : (Course.of id a b).After a k i j s) (early : k ≤ stepCount a b) :
    Near a b (s.fragment color) := by
  obtain ⟨insideX, insideY, -⟩ := after.reach early
  have endX := endX_eq a b
  have endY := endY_eq a b
  have unitX := stepX_unit a b
  have unitY := stepY_unit a b
  have hx := after.x
  have hy := after.y
  refine ⟨?_, ?_, fun level => ?_, fun level => ?_⟩
  · show _ ≤ s.x ∧ s.x ≤ _
    rcases unitX with unit | unit <;> (rw [unit] at endX hx; omega)
  · show _ ≤ s.y ∧ s.y ≤ _
    rcases unitY with unit | unit <;> (rw [unit] at endY hy; omega)
  · obtain ⟨rfl, low, high⟩ := after.flat_lag level
    rcases Nat.eq_zero_or_pos (b.x - a.x).natAbs with still | pos
    · obtain ⟨rfl, rfl⟩ : i = 0 ∧ j = 0 := by omega
      simp [State.fragment, ideal, hx, hy]
    · exact near_ideal unitX unitY hx hy endX endY (by omega) low high
  · obtain ⟨rfl, low, high⟩ := after.steep_lag level
    rcases Nat.eq_zero_or_pos (b.y - a.y).natAbs with still | pos
    · obtain ⟨rfl, rfl⟩ : i = 0 ∧ j = 0 := by omega
      simp [State.fragment, ideal, hx, hy]
    · exact near_ideal unitY unitX hy hx endY endX (by omega) low high

theorem Course.After.advances (after : (Course.of id a b).After a k i j s)
    (early : k < stepCount a b) :
    Advances a b (s.fragment color) (((Course.of id a b).step s).fragment color) := by
  have next := after.step rfl (dx_nonneg a b) (dy_nonpos a b)
  obtain ⟨insideX, insideY, -⟩ := next.reach early
  have movesX (along : (Course.of id a b).dy ≤ 2 * s.error) :
      a.x ≠ b.x ∧ ((Course.of id a b).step s).x = s.x + (b.x - a.x).sign := by
    rw [if_pos along] at insideX
    have apart : a.x ≠ b.x := by omega
    rw [← stepX_eq_sign apart, step_exact rfl]
    exact ⟨apart, if_pos along⟩
  have movesY (along : 2 * s.error ≤ (Course.of id a b).dx) :
      a.y ≠ b.y ∧ ((Course.of id a b).step s).y = s.y + (b.y - a.y).sign := by
    rw [if_pos along] at insideY
    have apart : a.y ≠ b.y := by omega
    rw [← stepY_eq_sign apart, step_exact rfl]
    exact ⟨apart, if_pos along⟩
  refine ⟨?_, ?_, fun level => ?_, fun level => ?_⟩
  · by_cases along : (Course.of id a b).dy ≤ 2 * s.error
    · exact .inr (movesX along).2
    · exact .inl (if_neg along)
  · by_cases along : 2 * s.error ≤ (Course.of id a b).dx
    · exact .inr (movesY along).2
    · exact .inl (if_neg along)
  · have all := (after.flat_lag level).1
    have all' := (next.flat_lag level).1
    split at all'
    · next along => exact movesX along
    · omega
  · have all := (after.steep_lag level).1
    have all' := (next.steep_lag level).1
    split at all'
    · next along => exact movesY along
    · omega

theorem length_fragments : (fragments id a b color).length = stepCount a b + 1 := by
  rw [fragments, List.length_map, states_exact, route, List.length_map, List.length_range]

theorem near_of_getElem? {n : Nat} {f : Fragment α} (here : (fragments id a b color)[n]? = some f) :
    Near a b f := by
  obtain ⟨early, rfl⟩ := getElem?_fragments.mp here
  obtain ⟨i, j, after⟩ := exists_after a b n
  exact after.near color early

theorem advances_of_getElem? {n : Nat} {f g : Fragment α}
    (here : (fragments id a b color)[n]? = some f)
    (there : (fragments id a b color)[n + 1]? = some g) : Advances a b f g := by
  obtain ⟨-, rfl⟩ := getElem?_fragments.mp here
  obtain ⟨early, rfl⟩ := getElem?_fragments.mp there
  obtain ⟨i, j, after⟩ := exists_after a b n
  rw [stateAt_succ]
  exact after.advances color early

end Flipbook.Line

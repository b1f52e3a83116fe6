import Flipbook.Geometry.CoordinateStack
import Flipbook.Proofs.Geometry.Matrix

/-!
# Nested transforms

A run of a coordinate stack that starts with one system. A transform is in scope until a pop closes
the system that it was applied in. `placements_act_in_order` shows that the current transform takes
a point through the transforms in scope, from the last one that was applied to the first.
-/

namespace Flipbook

/-- A transform that a command can ask for. A rotation is given by the sine and the cosine of its
angle, and any two numbers will do. -/
inductive Placement (R : Type)
  | move (v : Vec3 R)
  | scale (v : Vec3 R)
  | rotate (axis : Axis) (sin cos : R)

def Placement.matrix {R : Type} [Neg R] [OfNat R 0] [OfNat R 1] : Placement R → Matrix R
  | move v => .translation v
  | scale v => .dilation v
  | rotate axis sin cos => .rotation axis sin cos

namespace CoordinateStack

/-- What is done to a stack. -/
inductive Call (R : Type)
  | push
  | pop
  | transform (p : Placement R)

def Call.opens {R : Type} : Call R → Bool
  | push => true
  | _ => false

def Call.closes {R : Type} : Call R → Bool
  | pop => true
  | _ => false

section

variable {R : Type} {calls later : List (Call R)} {k : Nat}

/-- No beginning of the calls has more pops than pushes. -/
def Nested (calls : List (Call R)) : Prop :=
  ∀ i, (calls.take i).countP Call.closes ≤ (calls.take i).countP Call.opens

/-- The number of pops that close a system which the calls did not open. -/
def unmatched : List (Call R) → Nat
  | [] => 0
  | .push :: later => unmatched later - 1
  | .pop :: later => unmatched later + 1
  | .transform _ :: later => unmatched later

theorem unmatched_le_iff : unmatched calls ≤ k ↔
    ∀ i, (calls.take i).countP Call.closes ≤ (calls.take i).countP Call.opens + k := by
  induction calls generalizing k with
  | nil => simp [unmatched]
  | cons c later ih =>
    -- The beginnings of `c :: later` are the empty one and those of `later` with `c` in front.
    have split (ok : List (Call R) → Prop) (here : ok []) :
        (∀ i, ok ((c :: later).take i)) ↔ ∀ i, ok (c :: later.take i) :=
      ⟨fun h i => h (i + 1), fun h i => Nat.casesOn i here h⟩
    rw [split (fun before => before.countP Call.closes ≤ before.countP Call.opens + k)
      (Nat.zero_le _)]
    cases c with
    | push =>
      rw [unmatched, Nat.sub_le_iff_le_add, ih]
      simp only [List.countP_cons, Call.opens, Call.closes, if_true]
      exact forall_congr' fun i => by simp; omega
    | pop =>
      simp only [unmatched, List.countP_cons, Call.opens, Call.closes, if_true]
      cases k with
      | zero =>
        refine iff_of_false (by omega) fun h => ?_
        have first := h 0
        simp at first
      | succ k =>
        rw [Nat.add_le_add_iff_right, ih]
        exact forall_congr' fun i => by simp; omega
    | transform p =>
      rw [unmatched, ih]
      simp [Call.opens, Call.closes]

theorem nested_iff : Nested calls ↔ unmatched calls = 0 := by
  rw [← Nat.le_zero, unmatched_le_iff]
  rfl

instance (calls : List (Call R)) : Decidable (Nested calls) :=
  decidable_of_iff _ nested_iff.symm

/-- The transforms that no later pop undoes, in the order in which they were applied. -/
def inScope : List (Call R) → List (Placement R)
  | [] => []
  | .transform p :: later => if Nested later then p :: inScope later else inScope later
  | _ :: later => inScope later

end

variable {R : Type} [CommRing R] {s t : CoordinateStack R} {calls : List (Call R)}

def step? (s : CoordinateStack R) : Call R → Option (CoordinateStack R)
  | .push => some s.push
  | .pop => s.pop?
  | .transform p => some (s.transform p.matrix)

/-- The stack after some calls. `none` if a pop meets the outermost system. -/
def run? (s : CoordinateStack R) (calls : List (Call R)) : Option (CoordinateStack R) :=
  calls.foldlM step? s

/-- A transform with further ones applied inside it. -/
def inside (m : Matrix R) (placements : List (Placement R)) : Matrix R :=
  placements.foldl (fun outer p => outer.compose p.matrix) m

/-- The transforms of the systems that are open, innermost first. -/
def systems (s : CoordinateStack R) : List (Matrix R) :=
  s.current :: s.saved

theorem run?_isSome_iff : (s.run? calls).isSome ↔ unmatched calls ≤ s.saved.length := by
  induction calls generalizing s with
  | nil => simp [run?, unmatched]
  | cons c later ih =>
    cases c with
    | push =>
      show (s.push.run? later).isSome ↔ unmatched later - 1 ≤ s.saved.length
      rw [ih, Nat.sub_le_iff_le_add]
      rfl
    | pop =>
      obtain ⟨current, _ | ⟨outer, rest⟩⟩ := s
      · exact iff_of_false nofun (Nat.not_succ_le_zero _)
      · show (run? ⟨outer, rest⟩ later).isSome ↔ unmatched later + 1 ≤ rest.length + 1
        rw [ih, Nat.add_le_add_iff_right]
    | transform p => exact ih (s := s.transform p.matrix)

/-- The calls leave as many systems as they close without having opened them. The transforms in
scope were applied inside the system that is current then. -/
theorem current_of_run? (ran : s.run? calls = some t) :
    ∃ base, s.systems[unmatched calls]? = some base ∧ t.current = inside base (inScope calls) := by
  induction calls generalizing s with
  | nil =>
    obtain rfl : s = t := Option.some.inj ran
    exact ⟨s.current, rfl, rfl⟩
  | cons c later ih =>
    cases c with
    | push =>
      obtain ⟨base, system, reached⟩ := ih (s := s.push) ran
      refine ⟨base, ?_, reached⟩
      -- The new system and the one it was opened in have the same transform.
      show s.systems[unmatched later - 1]? = some base
      cases count : unmatched later with
      | zero => rwa [count] at system
      | succ k => rwa [count] at system
    | pop =>
      obtain ⟨current, _ | ⟨outer, rest⟩⟩ := s
      · cases ran
      · obtain ⟨base, system, reached⟩ := ih (s := ⟨outer, rest⟩) ran
        exact ⟨base, system, reached⟩
    | transform p =>
      obtain ⟨base, system, reached⟩ := ih (s := s.transform p.matrix) ran
      rw [unmatched, inScope]
      by_cases kept : Nested later
      · rw [if_pos kept]
        rw [nested_iff.mp kept] at system ⊢
        obtain rfl : s.current.compose p.matrix = base := Option.some.inj system
        exact ⟨s.current, rfl, reached⟩
      · rw [if_neg kept]
        obtain ⟨k, count⟩ := Nat.exists_eq_succ_of_ne_zero (mt nested_iff.mpr kept)
        rw [count] at system ⊢
        exact ⟨base, system, reached⟩

theorem apply_inside (m : Matrix R) (placements : List (Placement R)) (v : Point R) :
    (inside m placements).apply v =
      m.apply (placements.foldr (fun p v => p.matrix.apply v) v) := by
  induction placements generalizing m with
  | nil => rfl
  | cons p rest ih =>
    calc (inside (m.compose p.matrix) rest).apply v
      _ = (m.compose p.matrix).apply (rest.foldr (fun p v => p.matrix.apply v) v) := ih _
      _ = m.apply (p.matrix.apply (rest.foldr (fun p v => p.matrix.apply v) v)) :=
        Matrix.apply_compose ..

theorem isAffine_placement (p : Placement R) : p.matrix.IsAffine := by
  cases p with
  | rotate axis => cases axis <;> rfl
  | _ => rfl

theorem isAffine_inside {m : Matrix R} (affine : m.IsAffine) (placements : List (Placement R)) :
    (inside m placements).IsAffine := by
  induction placements generalizing m with
  | nil => exact affine
  | cons p rest ih => exact ih (affine.compose (isAffine_placement p))

/-- Calls on a new stack succeed if no pop is without its push. The current transform then sends each
point through the transforms in scope, the last one that was applied first, and keeps the fourth
coordinate. -/
theorem placements_act_in_order (calls : List (Call R)) :
    ((start.run? calls).isSome ↔ Nested calls) ∧
    ∀ s : CoordinateStack R, start.run? calls = some s →
      (∀ points : List (Point R), points.map s.current.apply =
        points.map fun v => (inScope calls).foldr (fun p v => p.matrix.apply v) v) ∧
      s.current.lastRow = ⟨0, 0, 0, 1⟩ ∧
      ∀ v : Point R, v.w = 1 → (s.current.apply v).w = 1 := by
  have succeeds : (start.run? calls).isSome ↔ Nested calls := by
    rw [run?_isSome_iff, nested_iff]
    exact Nat.le_zero
  refine ⟨succeeds, fun s ran => ?_⟩
  obtain ⟨base, system, reached⟩ := current_of_run? ran
  have matched : unmatched calls = 0 := nested_iff.mp (succeeds.mp (by rw [ran]; rfl))
  rw [matched] at system
  obtain rfl : Matrix.identity = base := Option.some.inj system
  have affine : s.current.IsAffine := by
    rw [reached]
    exact isAffine_inside Matrix.isAffine_identity _
  refine ⟨fun points => ?_, affine, fun v one => (affine.apply_w v).trans one⟩
  refine List.map_congr_left fun v _ => ?_
  rw [reached, apply_inside, Matrix.apply_identity]

/-- The scaling goes with its group, the quarter turn acts before the move. -/
theorem turned_point_moves :
    let calls : List (Call ℤ) :=
      [.transform (.move ⟨10, 0, 0⟩), .push, .transform (.scale ⟨2, 2, 2⟩), .pop,
        .transform (.rotate .z 1 0)]
    ∃ s : CoordinateStack ℤ, start.run? calls = some s ∧ s.depth = 1 ∧
      [⟨1, 2, 3, 1⟩].map s.current.apply = ([⟨8, 1, 3, 1⟩] : List (Point ℤ)) := by
  intro calls
  obtain ⟨-, acts⟩ := placements_act_in_order calls
  refine ⟨_, rfl, rfl, ?_⟩
  exact ((acts _ rfl).1 _).trans (by decide)

end CoordinateStack

end Flipbook

import Flipbook.Animation.Timeline

/-!
# Cells of a timeline

A cell is one knob in one frame. Writing a ramp changes the cells of its knob and its frames and no
others. Written frame by frame, by number, it never leaves the frames (`writeEach?_eq`).
-/

namespace Flipbook.Timeline

/-- The value of a knob in a frame. -/
def cell (frames : List KnobValues) (frame : Nat) (knob : String) : Option Float32 :=
  frames[frame]?.bind (·.get? knob)

/-- A range of at least two frames in a run of `n` frames. -/
def InRun (n : Nat) (range : FrameRange) : Prop :=
  0 ≤ range.first ∧ range.first < range.last ∧ range.last < n

/-- A frame of a range. -/
def Within (range : FrameRange) (frame : Int) : Prop :=
  range.first ≤ frame ∧ frame ≤ range.last

theorem contains_iff {range : FrameRange} {frame : Int} :
    range.contains frame = true ↔ Within range frame := by
  simp [FrameRange.contains, Within]

theorem fits_iff {range : FrameRange} {n : Nat} : range.fits n = true ↔ InRun n range := by
  simp only [FrameRange.fits, InRun, Bool.and_eq_true, decide_eq_true_eq]
  exact ⟨fun ⟨⟨a, b⟩, c⟩ => ⟨a, c, b⟩, fun ⟨a, c, b⟩ => ⟨⟨a, b⟩, c⟩⟩

instance (n : Nat) (range : FrameRange) : Decidable (InRun n range) :=
  inferInstanceAs (Decidable (_ ∧ _ ∧ _))

instance (range : FrameRange) (frame : Int) : Decidable (Within range frame) :=
  inferInstanceAs (Decidable (_ ∧ _))

variable {frames : List KnobValues} {frame : Nat} {knob other : String} {ramp : Ramp Float32}

@[simp] theorem length_writeRamp : (writeRamp knob ramp frames).length = frames.length := by
  simp [writeRamp]

theorem cell_writeRamp (inside : frame < frames.length) :
    cell (writeRamp knob ramp frames) frame other =
      if knob = other ∧ Within ramp.range frame then some (ramp.value frame)
      else cell frames frame other := by
  simp only [cell, writeRamp, List.getElem?_mapIdx, List.getElem?_eq_getElem inside,
    Option.map_some, Option.bind_some]
  by_cases within : Within ramp.range frame
  · rw [if_pos (contains_iff.mpr within), NameMap.get?_insert]
    simp [within]
  · rw [if_neg (mt contains_iff.mp within)]
    simp [within]

@[simp] theorem length_writeRamps (ramps : List (String × Ramp Float32)) :
    (writeRamps ramps frames).length = frames.length := by
  induction ramps generalizing frames with
  | nil => rfl
  | cons r rest ih => exact ih.trans length_writeRamp

/-- Ramps for several knobs over one range: each knob gets its own. -/
theorem cell_writeRamps (range : FrameRange) {ramps : String → Ramp Float32}
    (same : ∀ name, (ramps name).range = range) (names : List String)
    (inside : frame < frames.length) :
    cell (writeRamps (names.map fun name => (name, ramps name)) frames) frame knob =
      if knob ∈ names ∧ Within range frame then some ((ramps knob).value frame)
      else cell frames frame knob := by
  induction names generalizing frames with
  | nil => simp [writeRamps]
  | cons name rest ih =>
    show cell (writeRamps (rest.map fun name => (name, ramps name))
      (writeRamp name (ramps name) frames)) frame knob = _
    rw [ih (by simpa using inside), cell_writeRamp inside, same]
    by_cases here : name = knob
    · subst here
      by_cases within : Within range frame <;> simp [within]
    · simp [here, Ne.symm here]

/-! ### Frame by frame -/

/-- One frame of a ramp, written by its number. `none` if there is no such frame. -/
def writeAt? (knob : String) (ramp : Ramp Float32) (frames : List KnobValues) (frame : Int) :
    Option (List KnobValues) :=
  if 0 ≤ frame then
    frames[frame.toNat]?.map fun knobs =>
      frames.set frame.toNat (knobs.insert knob (ramp.value frame))
  else none

/-- The first `count` frames of a ramp, written one after the other. -/
def writeEach? (knob : String) (ramp : Ramp Float32) (frames : List KnobValues) (count : Nat) :
    Option (List KnobValues) :=
  (List.range count).foldlM
    (fun frames (i : Nat) => writeAt? knob ramp frames (ramp.range.first + i)) frames

theorem writeEach?_some {n : Nat} (fits : InRun n ramp.range) (length : frames.length = n)
    (count : Nat) (short : ramp.range.first + count ≤ ramp.range.last + 1) :
    writeEach? knob ramp frames count =
      some (frames.mapIdx fun frame knobs =>
        if ramp.range.first ≤ frame ∧ (frame : Int) < ramp.range.first + count then
          knobs.insert knob (ramp.value frame)
        else knobs) := by
  obtain ⟨low, _, high⟩ := fits
  induction count with
  | zero =>
    have outside (frame : Nat) :
        ¬ (ramp.range.first ≤ frame ∧ (frame : Int) < ramp.range.first + (0 : Nat)) := by omega
    simp only [writeEach?, List.range_zero, List.foldlM_nil, if_neg (outside _)]
    exact congrArg some (List.ext_getElem? fun i => by simp)
  | succ count ih =>
    obtain ⟨number, same⟩ : ∃ number : Nat, ramp.range.first + count = number :=
      ⟨(ramp.range.first + count).toNat, by omega⟩
    have bound : number < frames.length := by omega
    have before := ih (by omega)
    rw [writeEach?] at before ⊢
    rw [List.range_succ, List.foldlM_append, before]
    simp only [Option.bind_eq_bind, Option.bind_some, List.foldlM_cons, List.foldlM_nil, bind_pure, writeAt?,
      same, Int.toNat_natCast, List.getElem?_mapIdx, List.getElem?_eq_getElem bound,
      if_pos (Int.natCast_nonneg number), Option.map_some]
    refine congrArg some (List.ext_getElem? fun i => ?_)
    rw [List.getElem?_set, List.getElem?_mapIdx, List.getElem?_mapIdx]
    by_cases here : number = i
    · subst here
      rw [if_pos rfl, List.length_mapIdx, if_pos bound, List.getElem?_eq_getElem bound,
        if_neg (by omega), Option.map_some, if_pos (by omega)]
    · rw [if_neg here]
      congr 1
      funext knobs
      congr 1
      exact propext (by omega)

/-- A ramp that fits into the run is written frame by frame without ever missing a frame. -/
theorem writeEach?_eq {n : Nat} (fits : InRun n ramp.range) (length : frames.length = n) :
    writeEach? knob ramp frames (ramp.range.last - ramp.range.first + 1).toNat =
      some (writeRamp knob ramp frames) := by
  have ⟨_, _, _⟩ := fits
  rw [writeEach?_some fits length _ (by omega)]
  refine congrArg some (List.ext_getElem? fun i => ?_)
  rw [writeRamp, List.getElem?_mapIdx, List.getElem?_mapIdx]
  congr 1
  funext knobs
  congr 1
  rw [contains_iff]
  exact propext (by unfold Within; omega)

end Flipbook.Timeline

import Flipbook.Animation.Timeline
import Flipbook.Trace

/-!
# Running values

`running declared commands` are the knob values that `set` and `setknobs` leave, read off the
commands alone. The timeline keeps exactly these (`foldlM_running`).
-/

namespace Flipbook.Timeline

/-- The knob values after one more command. -/
def turn (values : KnobValues) : Command → KnobValues
  | .set knob value => values.insert knob value
  | .setKnobs value => values.map fun _ => value
  | _ => values

/-- The knob values after some commands. -/
def running (declared : KnobValues) (commands : List Command) : KnobValues :=
  commands.foldl turn declared

theorem running_concat (declared : KnobValues) (commands : List Command) (c : Command) :
    running declared (commands ++ [c]) = turn (running declared commands) c := by
  simp [running]

/-- The running values bind what is declared and what is set. -/
theorem isSome_running {declared : KnobValues} {commands : List Command} {knob : String} :
    ((running declared commands).get? knob).isSome ↔
      (declared.get? knob).isSome ∨ ∃ value, .set knob value ∈ commands := by
  induction commands generalizing declared with
  | nil => simp [running]
  | cons c rest ih =>
    show ((running (turn declared c) rest).get? knob).isSome ↔ _
    rw [ih]
    cases c with
    | set other value =>
      by_cases same : other = knob
      · subst same
        simp [turn, NameMap.get?_insert]
      · simp [turn, NameMap.get?_insert, same, Ne.symm same]
    | setKnobs value => simp [turn, NameMap.get?_map]
    | _ => simp [turn]

/-- A run over `first ++ last` is a run over `first` and then one over `last`. -/
theorem foldlM_append_ok {s t : State} {first last : List Command}
    (h : (first ++ last).foldlM State.step s = .ok t) :
    ∃ r, first.foldlM State.step s = .ok r ∧ last.foldlM State.step r = .ok t := by
  rw [List.foldlM_append] at h
  exact exists_of_bind_ok h

theorem foldlM_concat {s r : State} {commands : List Command}
    (h : commands.foldlM State.step s = .ok r) (c : Command) :
    (commands ++ [c]).foldlM State.step s = r.step c := by
  rw [List.foldlM_append, h]
  show List.foldlM State.step r [c] = _
  simp only [List.foldlM_cons, List.foldlM_nil, bind_pure]

theorem step_running {s t : State} {c : Command} (h : s.step c = .ok t) :
    t.running = turn s.running c := by
  cases c with
  | vary =>
    obtain ⟨_, _, h⟩ := exists_of_bind_ok h
    cases h
    rfl
  | tween =>
    obtain ⟨_, _, h⟩ := exists_of_bind_ok h
    obtain ⟨_, _, h⟩ := exists_of_bind_ok h
    obtain ⟨_, _, h⟩ := exists_of_bind_ok h
    cases h
    rfl
  | _ =>
    cases h
    rfl

theorem foldlM_running {s t : State} {commands : List Command}
    (h : commands.foldlM State.step s = .ok t) : t.running = running s.running commands := by
  induction commands generalizing s with
  | nil =>
    cases h
    rfl
  | cons c rest ih =>
    rw [List.foldlM_cons] at h
    obtain ⟨r, first, h⟩ := exists_of_bind_ok h
    rw [ih h, step_running first]
    rfl

end Flipbook.Timeline

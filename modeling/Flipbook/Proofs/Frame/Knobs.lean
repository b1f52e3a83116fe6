import Flipbook.Proofs.Frame.Points
import Flipbook.Proofs.Timeline.Running

/-!
# The knobs of a frame

The timeline keeps knobs in a plain map, a frame keeps them among all its symbols. At every point
of a frame its knobs are those that it turns, laid over the running values of the timeline.
-/

namespace Flipbook.Frame

open SymbolTable (knobValues)

variable {setting : Setting} {s t : State}

theorem knobValues_retable {symbols : SymbolTable} {values : KnobValues}
    (same : knobValues symbols = values.overlay setting.knobs) (c : Command) :
    knobValues (setting.retable symbols c) = (Timeline.turn values c).overlay setting.knobs := by
  cases c with
  | set knob value =>
    simp only [Setting.retable, Setting.set, Timeline.turn]
    split
    · next bound => rw [same, NameMap.insert_overlay_of_bound bound]
    · next free =>
      have free : setting.knobs.get? knob = none := by simpa [NameMap.contains] using free
      rw [SymbolTable.knobValues_setKnob, same, NameMap.insert_overlay_of_free free]
  | setKnobs value =>
    simp only [Setting.retable, Setting.setAll, Timeline.turn]
    rw [SymbolTable.knobValues_applyKnobs, SymbolTable.knobValues_setAllKnobs, same,
      NameMap.overlay_map_overlay]
  | _ => exact same

theorem knobValues_foldl {symbols : SymbolTable} {values : KnobValues} (commands : List Command)
    (same : knobValues symbols = values.overlay setting.knobs) :
    knobValues (commands.foldl setting.retable symbols) =
      (Timeline.running values commands).overlay setting.knobs := by
  induction commands generalizing symbols values with
  | nil => exact same
  | cons c rest ih => exact ih (knobValues_retable same c)

/-- At every point of a frame: what it turns, over what `set` and `setknobs` left so far. -/
theorem knobValues_upTo {commands : List Command} {symbols : SymbolTable} {knobs : KnobValues}
    {i : Nat} (reached : (upTo commands symbols knobs i).outcome = .ok s) :
    knobValues s.symbols =
      (Timeline.running (knobValues symbols) (commands.take i)).overlay knobs := by
  rw [executeAll_symbols reached]
  exact knobValues_foldl _ (SymbolTable.knobValues_applyKnobs symbols knobs)

/-- Why a name cannot be used as a knob. -/
def knobError (symbols : SymbolTable) (knob : String) : Error :=
  if (symbols.get? knob).isSome then .notAKnob knob else .undefinedSymbol knob

theorem factor_some (symbols : SymbolTable) (knob : String) :
    factor symbols (some knob) =
      match (knobValues symbols).get? knob with
      | some value => .ok value
      | none => .error (knobError symbols knob) := by
  rw [SymbolTable.get?_knobValues, factor, SymbolTable.knob, knobError]
  cases symbols.get? knob with
  | none => rfl
  | some symbol => cases symbol <;> rfl

theorem execute_transform (motion : Motion) (knob : String) :
    execute setting s (.transform motion (some knob)) =
      match (knobValues s.symbols).get? knob with
      | some value => pure { s with stack := s.stack.transform (motion.matrix value) }
      | none => .fail (knobError s.symbols knob) := by
  rw [execute, factor_some]
  cases (knobValues s.symbols).get? knob <;> rfl

/-- The timeline and the frame agree on every knob at every point, whatever knobs the frame turns.
So every motion is multiplied by what the frame turns its knob to, or else by the running value: a
move and a scale in each coordinate, a rotation in its angle. -/
theorem knobs_agree_with_timeline {commands : List Command} {symbols : SymbolTable} {n i : Nat}
    {frames : List KnobValues} {knobs : KnobValues}
    (resolved : Timeline.ofCommands commands n (knobValues symbols) = .ok frames)
    (reached : (upTo commands symbols knobs i).outcome = .ok s) :
    ∃ r, (commands.take i).foldlM Timeline.State.step (.start n (knobValues symbols)) = .ok r ∧
      knobValues s.symbols = r.running.overlay knobs ∧
      ∀ knob,
        (∀ k, (knobs.get? knob).or (r.running.get? knob) = some k →
          let turns (motion : Motion) (m : Matrix Float32) : Prop :=
            execute (.of symbols knobs) s (.transform motion (some knob)) =
              pure { s with stack := ⟨s.stack.current.compose m, s.stack.saved⟩ }
          (∀ a b c, turns (.move ⟨a, b, c⟩) (.translation ⟨a * k, b * k, c * k⟩)) ∧
          (∀ a b c, turns (.scale ⟨a, b, c⟩) (.dilation ⟨a * k, b * k, c * k⟩)) ∧
          ∀ axis degrees, turns (.rotate axis degrees) (.turn axis (degrees * k))) ∧
        ((knobs.get? knob).or (r.running.get? knob) = none → ∀ motion,
          execute (.of symbols knobs) s (.transform motion (some knob)) =
            .fail (knobError s.symbols knob)) := by
  obtain ⟨last, whole, _⟩ := exists_of_bind_ok resolved
  rw [← List.take_append_drop i commands] at whole
  obtain ⟨r, first, _⟩ := Timeline.foldlM_append_ok whole
  have same : knobValues s.symbols = r.running.overlay knobs := by
    rw [knobValues_upTo reached, Timeline.foldlM_running first]
    rfl
  refine ⟨r, first, same, fun knob => ?_⟩
  have executed (motion : Motion) : execute (.of symbols knobs) s (.transform motion (some knob)) = _ :=
    execute_transform motion knob
  rw [same, NameMap.get?_overlay] at executed
  constructor
  · intro k turned turns
    rw [turned] at executed
    exact ⟨fun _ _ _ => executed _, fun _ _ _ => executed _, fun _ _ => executed _⟩
  · intro unbound
    rw [unbound] at executed
    exact executed

/-- On the last of two frames, in which `k` is turned while `set` and `setknobs` only turn `j`. -/
theorem knobs_agree_on_last_frame :
    let commands : List Command :=
      [.vary "k" ⟨0, 1⟩ 0 8 none, .set "j" 3, .set "k" 4, .setKnobs 5]
    let symbols : SymbolTable :=
      .ofList [("j", .knob 0), ("k", .knob 0), ("m", .material .standard)]
    ∃ frames knobs s, Timeline.ofCommands commands 2 (knobValues symbols) = .ok frames ∧
      frames[1]? = some knobs ∧ (upTo commands symbols knobs 4).outcome = .ok s ∧
      (knobValues s.symbols).entries = [("j", 5), ("k", 8)] ∧
      execute (.of symbols knobs) s (.transform (.move ⟨1, 0, 0.5⟩) (some "k")) =
        pure { s with stack := ⟨s.stack.current.compose (.translation ⟨8, 0, 4⟩), s.stack.saved⟩ } := by
  intro commands symbols
  obtain ⟨frames, knobs, s, resolved, last, reached, values, eight⟩ : ∃ frames knobs s,
      Timeline.ofCommands commands 2 (knobValues symbols) = .ok frames ∧ frames[1]? = some knobs ∧
        (upTo commands symbols knobs 4).outcome = .ok s ∧
        (knobValues s.symbols).entries = [("j", 5), ("k", 8)] ∧ knobs.get? "k" = some 8 :=
    ⟨_, _, _, rfl, rfl, rfl, by decide +kernel, by decide +kernel⟩
  refine ⟨frames, knobs, s, resolved, last, reached, values, ?_⟩
  obtain ⟨_, _, _, agree⟩ := knobs_agree_with_timeline resolved reached
  have turned := (agree "k").1 8 (by rw [eight, Option.some_or])
  have eightfold : (⟨1 * 8, 0 * 8, 0.5 * 8⟩ : Vec3 Float32) = ⟨8, 0, 4⟩ := by decide +kernel
  rw [← eightfold]
  exact turned.1 1 0 0.5

end Flipbook.Frame

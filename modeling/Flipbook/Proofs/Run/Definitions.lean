import Flipbook.Proofs.Frame.Definitions
import Flipbook.Proofs.Run.Failure
import Flipbook.Proofs.Scene.Bindings
import Flipbook.Proofs.Timeline.LastWriter

/-!
# Definitions during a run

Names are asked for their kind only where a knob is declared. So a script can define a name that it
turned as a knob before, and the frames then take the name back. There is no other way in which a
definition is lost (`turned_of_overwritten`).
-/

namespace Flipbook.Scene

open Script InOrder Flipbook.Frame

variable {origin source name : String} {scene : Scene} {f i : Nat} {knobs : KnobValues}
variable {s : Frame.State} {symbol : Symbol}

/-- The knob that a command turns by its name. -/
def turnedKnob? : Command → Option String
  | .set knob _ => some knob
  | .vary knob .. => some knob
  | _ => none

theorem declaredKnob?_of_turned {c : Command} (turned : turnedKnob? c = some name) :
    c.declaredKnob? = some name := by
  cases c with
  | set | vary => exact turned
  | _ => cases turned

/-- A definition is only lost to a command that turns its name. A tween turns no other knobs than
those which are declared or set. -/
theorem turned_of_overwritten (turns : scene.Turns f knobs) (defined : symbol.knob? = none)
    (bound : scene.symbols.get? name = some symbol)
    (taken : Overwritten knobs (scene.commands.take i) name) :
    ∃ c ∈ scene.commands, turnedKnob? c = some name := by
  obtain ⟨policy, frames, _, resolved, frameKnobs⟩ := turns
  have undeclared : (SymbolTable.knobValues scene.symbols).get? name = none := by
    rw [SymbolTable.get?_knobValues, bound, Option.bind_some, defined]
  rcases taken with turned | ⟨value, set⟩
  · -- A tween that turns the name found it among the running values, so it was set.
    rcases Timeline.named_of_turned resolved frameKnobs turned with
      ⟨range, start, stop, easing, varied⟩ | declared | ⟨value, set⟩
    · exact ⟨_, varied, rfl⟩
    · rw [undeclared] at declared
      cases declared
    · exact ⟨_, set, rfl⟩
  · exact ⟨_, List.mem_of_mem_take set, rfl⟩

/-- Whatever a script defines stands at every point of every frame, unless a knob has taken the
name there; then a statement before the definition turned the name. The same holds of the materials
that it names. A frame draws in the light of the table it starts with, which is that of the scene if
the frame turns no light. -/
theorem definitions_stand_unless_turned
    (parsed : (ofSource origin source).outcome = .ok scene) (turns : scene.Turns f knobs)
    (reached : (upTo scene.commands scene.symbols knobs i).outcome = .ok s) :
    (∀ name symbol, scene.symbols.get? name = some symbol → symbol.knob? = none →
      (s.symbols.get? name = some symbol ↔
        ¬ Overwritten knobs (scene.commands.take i) name) ∧
      (Overwritten knobs (scene.commands.take i) name →
        ∃ (j k : Nat) (c : Command) (d : Statement), j < k ∧ turnedKnob? c = some name ∧
          (statements origin source)[j]? = some (.command c) ∧
          (statements origin source)[k]? = some d ∧
          Binds name ((statements origin source).take k) d symbol)) ∧
    (∀ reference m, SymbolTable.material scene.symbols reference = .ok m →
      (SymbolTable.material s.symbols reference = .ok m ↔
        ∀ name, reference = some name → ¬ Overwritten knobs (scene.commands.take i) name)) ∧
    LitBy (SymbolTable.lighting (table scene.symbols knobs))
      (replay scene.commands scene.symbols knobs) ∧
    ((∀ name symbol, scene.symbols.get? name = some symbol → symbol.shining?.isSome →
        knobs.get? name = none) →
      SymbolTable.lighting (table scene.symbols knobs) = SymbolTable.lighting scene.symbols) := by
  refine ⟨fun name symbol bound defined => ⟨?_, fun taken => ?_⟩, fun reference m found => ?_,
    replay_litBy scene.commands scene.symbols knobs, lighting_kept⟩
  · exact definition_kept_iff reached defined bound
  · obtain ⟨c, given, turned⟩ := turned_of_overwritten turns defined bound taken
    obtain ⟨j, k, d, before, used, defines, binds⟩ :=
      defined_after_use parsed given (declaredKnob?_of_turned turned) defined bound
    exact ⟨j, k, c, d, before, turned, used, defines, binds⟩
  · exact material_kept_iff reached found

/-- A light that is named like no knob stands to the end of every frame. -/
theorem definitions_stand_beside_knob :
    ∃ scene knobs s,
      (ofSource "t.mdl" "frames 2\nvary k 0 1 0 1\nset i 3\nlight j 255 0 0 0 0 1").outcome =
        .ok scene ∧ scene.Turns 1 knobs ∧
      (upTo scene.commands scene.symbols knobs 3).outcome = .ok s ∧
      s.symbols.get? "j" = some (.light ⟨255, 0, 0⟩ ⟨0, 0, 1⟩) := by
  let scene : Scene := ⟨[.frames 2, .vary "k" ⟨0, 1⟩ 0 1 none, .set "i" 3],
    .ofList [("k", .knob 0), ("i", .knob 0), ("j", .light ⟨255, 0, 0⟩ ⟨0, 0, 1⟩)]⟩
  have parsed : (ofSource "t.mdl"
      "frames 2\nvary k 0 1 0 1\nset i 3\nlight j 255 0 0 0 0 1").outcome = .ok scene :=
    ofSource_eq (by decide +kernel)
  have turns : scene.Turns 1 _ := ⟨_, _, rfl, rfl, rfl⟩
  have reached (knobs : KnobValues) : (upTo scene.commands scene.symbols knobs 3).outcome = .ok _ :=
    rfl
  refine ⟨scene, _, _, parsed, turns, reached _, ?_⟩
  obtain ⟨stands, _⟩ := definitions_stand_unless_turned parsed turns (reached _)
  refine (stands "j" _ (by decide +kernel) rfl).1.mpr ?_
  rintro (turned | ⟨value, set⟩)
  · exact absurd turned (by decide +kernel)
  · simp [scene] at set

/-- A light takes the name of a knob that a `vary` turned: no frame has the light, and each draws in
the standard light in its place. -/
theorem light_lost_to_knob :
    ∃ scene knobs s,
      (ofSource "t.mdl"
        "frames 2\nbasename t\nvary k 0 1 0 1\nlight k 255 0 0 0 0 1\nbox 0 0 0 1 1 1").outcome =
        .ok scene ∧ scene.Turns 0 knobs ∧
      (upTo scene.commands scene.symbols knobs 4).outcome = .ok s ∧
      scene.symbols.get? "k" = some (.light ⟨255, 0, 0⟩ ⟨0, 0, 1⟩) ∧
      s.symbols.get? "k" = some (.knob 0) ∧
      SymbolTable.lighting (table scene.symbols knobs) ≠ SymbolTable.lighting scene.symbols := by
  refine ⟨⟨[.frames 2, .basename "t", .vary "k" ⟨0, 1⟩ 0 1 none,
    .solid (.box ⟨0, 0, 0⟩ ⟨1, 1, 1⟩) none none], .ofList [("k", .light ⟨255, 0, 0⟩ ⟨0, 0, 1⟩)]⟩,
    _, _, ofSource_eq (by decide +kernel), ⟨_, _, rfl, rfl, rfl⟩, rfl, rfl, ?_, ?_⟩
  · decide +kernel
  · decide +kernel

end Flipbook.Scene

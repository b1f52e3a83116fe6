import Flipbook.Proofs.Run.Protocol

/-!
# Interleaving

A run reads the commands twice. The animation is resolved from the directives, and every frame
replays the drawing commands; only `set` and `setknobs` are read both times. So how directives stand
between drawing commands makes no difference (`play_of_same_parts`).
-/

namespace Flipbook

/-- Whether the animation is resolved from a command. -/
def Command.isDirective : Command → Bool
  | .frames _ | .basename _ | .vary .. | .saveKnobs _ | .tween .. => true
  | .set .. | .setKnobs _ => true
  | _ => false

/-- Whether a frame replays a command. -/
def Command.isReplayed : Command → Bool
  | .push | .pop | .transform .. | .line .. | .solid .. | .display | .save _ => true
  | .set .. | .setKnobs _ => true
  | _ => false

variable {commands commands' : List Command} {symbols : SymbolTable} {knobs : KnobValues}

/-! ### Directives -/

namespace FramePolicy

theorem framesSet?_filter (commands : List Command) :
    framesSet? (commands.filter Command.isDirective) = framesSet? commands := by
  unfold framesSet?
  rw [List.foldl_filter]
  congr
  funext found c
  cases c <;> rfl

theorem basenameSet?_filter (commands : List Command) :
    basenameSet? (commands.filter Command.isDirective) = basenameSet? commands := by
  unfold basenameSet?
  rw [List.foldl_filter]
  congr
  funext found c
  cases c <;> rfl

theorem turnsKnobs_filter (commands : List Command) :
    (commands.filter Command.isDirective).any turnsKnobs = commands.any turnsKnobs := by
  rw [List.any_filter]
  congr
  funext c
  cases c <;> rfl

theorem ofCommands_filter (commands : List Command) :
    ofCommands (commands.filter Command.isDirective) = ofCommands commands := by
  unfold ofCommands
  rw [framesSet?_filter, basenameSet?_filter, turnsKnobs_filter]

end FramePolicy

namespace Timeline

theorem step_of_not_directive {c : Command} (s : State) (other : c.isDirective = false) :
    s.step c = .ok s := by
  cases c with
  | frames | basename | vary | saveKnobs | tween | set | setKnobs => cases other
  | _ => rfl

theorem foldlM_step_filter (commands : List Command) (s : State) :
    (commands.filter Command.isDirective).foldlM State.step s = commands.foldlM State.step s := by
  induction commands generalizing s with
  | nil => rfl
  | cons c rest ih =>
    cases directive : c.isDirective with
    | true =>
      rw [List.filter_cons_of_pos directive, List.foldlM_cons, List.foldlM_cons]
      cases s.step c with
      | error e => rfl
      | ok t => exact ih t
    | false =>
      have passed : s.step c = .ok s := step_of_not_directive s directive
      have dropped : ¬c.isDirective = true := ne_true_of_eq_false directive
      rw [List.filter_cons_of_neg dropped, List.foldlM_cons, passed]
      exact ih s

theorem ofCommands_filter (commands : List Command) (frames : Nat) (declared : KnobValues) :
    ofCommands (commands.filter Command.isDirective) frames declared =
      ofCommands commands frames declared := by
  unfold ofCommands
  rw [foldlM_step_filter]

end Timeline

/-! ### Drawing commands -/

namespace Frame

theorem execute_of_not_replayed {c : Command} (setting : Setting) (s : State)
    (other : c.isReplayed = false) : execute setting s c = pure s := by
  cases c with
  | frames | basename | vary | saveKnobs | tween => rfl
  | _ => cases other

theorem executeAll_filter (setting : Setting) (commands : List Command) (s : State) :
    executeAll setting (commands.filter Command.isReplayed) s = executeAll setting commands s := by
  induction commands generalizing s with
  | nil => rfl
  | cons c rest ih =>
    cases replayed : c.isReplayed with
    | true =>
      rw [List.filter_cons_of_pos replayed, executeAll, executeAll]
      exact bind_congr ih
    | false =>
      have passed : execute setting s c = pure s := execute_of_not_replayed setting s replayed
      have dropped : ¬c.isReplayed = true := ne_true_of_eq_false replayed
      rw [List.filter_cons_of_neg dropped, executeAll, passed, pure_bind]
      exact ih s

theorem replay_filter (commands : List Command) (symbols : SymbolTable) (knobs : KnobValues) :
    replay (commands.filter Command.isReplayed) symbols knobs = replay commands symbols knobs := by
  unfold replay
  simp only [executeAll_filter]

end Frame

/-! ### Runs -/

namespace Scene

variable {directory : String}

theorem playFrames_congr {policy : FramePolicy} {first : Nat} {frames : List KnobValues}
    (same : ∀ knobs, Frame.replay commands symbols knobs = Frame.replay commands' symbols knobs) :
    playFrames ⟨commands, symbols⟩ policy directory first frames =
      playFrames ⟨commands', symbols⟩ policy directory first frames := by
  induction frames generalizing first with
  | nil => rfl
  | cons knobs rest ih =>
    unfold playFrames playFrame
    rw [same, ih]

theorem play_congr
    (policed : FramePolicy.ofCommands commands = FramePolicy.ofCommands commands')
    (resolved : ∀ frames declared,
      Timeline.ofCommands commands frames declared = Timeline.ofCommands commands' frames declared)
    (replayed : ∀ knobs,
      Frame.replay commands symbols knobs = Frame.replay commands' symbols knobs) :
    play ⟨commands, symbols⟩ directory = play ⟨commands', symbols⟩ directory := by
  unfold play policy
  simp only [policed, resolved, playFrames_congr replayed]

/-- Two lists of commands with the same directives and the same drawing commands, each in their
order, run alike over every table: with any outside, they make the same calls with the same answers,
leave the outside the same, and end with the same policy or error. -/
theorem play_of_same_parts
    (directives : commands.filter Command.isDirective = commands'.filter Command.isDirective)
    (drawings : commands.filter Command.isReplayed = commands'.filter Command.isReplayed)
    (symbols : SymbolTable) (directory : String) {σ : Type} (host : Host σ) (world : σ) :
    host.dialogue (play ⟨commands, symbols⟩ directory) world =
        host.dialogue (play ⟨commands', symbols⟩ directory) world ∧
      host.run (play ⟨commands, symbols⟩ directory) world =
        host.run (play ⟨commands', symbols⟩ directory) world := by
  have policed : FramePolicy.ofCommands commands = FramePolicy.ofCommands commands' := by
    rw [← FramePolicy.ofCommands_filter, directives, FramePolicy.ofCommands_filter]
  have resolved (frames : Nat) (declared : KnobValues) :
      Timeline.ofCommands commands frames declared =
        Timeline.ofCommands commands' frames declared := by
    rw [← Timeline.ofCommands_filter, directives, Timeline.ofCommands_filter]
  have replayed (knobs : KnobValues) :
      Frame.replay commands symbols knobs = Frame.replay commands' symbols knobs := by
    rw [← Frame.replay_filter, drawings, Frame.replay_filter]
  have same := @play_congr commands commands' symbols directory policed resolved replayed
  rw [same]
  exact ⟨rfl, rfl⟩

/-- Directives that are gathered about the one `set`, and a host that refuses the second frame. -/
theorem directives_behind_drawings :
    let woven : List Command := [.frames 2, .push, .vary "k" ⟨0, 1⟩ 0 1 none,
      .transform (.move ⟨1, 0, 0⟩) (some "k"), .basename "t", .set "i" 3, .display, .saveKnobs "l"]
    let parted : List Command := [.push, .transform (.move ⟨1, 0, 0⟩) (some "k"), .frames 2,
      .vary "k" ⟨0, 1⟩ 0 1 none, .basename "t", .set "i" 3, .saveKnobs "l", .display]
    let symbols : SymbolTable := .ofList [("i", .knob 0), ("k", .knob 0)]
    let host := refusing "anim/t001.png"
    woven ≠ parted ∧
      woven.filter Command.isDirective = parted.filter Command.isDirective ∧
      woven.filter Command.isReplayed = parted.filter Command.isReplayed ∧
      host.dialogue (play ⟨woven, symbols⟩ "anim") () =
        host.dialogue (play ⟨parted, symbols⟩ "anim") () ∧
      (host.run (play ⟨parted, symbols⟩ "anim") ()).2 = .error (.storage .alreadyExists) := by
  intro woven parted symbols host
  obtain ⟨heard, ended⟩ := @play_of_same_parts woven parted rfl rfl symbols "anim" _ host ()
  refine ⟨by decide, rfl, rfl, heard, ?_⟩
  rw [← ended]
  rfl

end Scene

end Flipbook

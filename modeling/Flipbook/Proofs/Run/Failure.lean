import Flipbook.Proofs.Frame.Points
import Flipbook.Replay.Run

/-!
# Where a run fails

A run that no call refuses fails before its first frame or at one command of one frame
(`play_error_iff`). `Reaches` are the points that a run comes to.
-/

namespace Flipbook

namespace Frame

variable {setting : Setting}

theorem executeAll_error_iff {commands : List Command} {s : State} {e : Error} :
    (executeAll setting commands s).outcome = .error e ↔
      ∃ (i : Nat) (c : Command) (t : State),
        (executeAll setting (commands.take i) s).outcome = .ok t ∧ commands[i]? = some c ∧
          (execute setting t c).outcome = .error e := by
  induction commands generalizing s with
  | nil => simp [executeAll, Trace.pure_eq]
  | cons c rest ih =>
    rw [executeAll, Trace.bind_error_iff]
    constructor
    · rintro (here | ⟨t, first, later⟩)
      · exact ⟨0, c, s, rfl, rfl, here⟩
      · obtain ⟨i, d, u, before, stands, fails⟩ := ih.mp later
        exact ⟨i + 1, d, u, Trace.bind_ok_iff.mpr ⟨t, first, before⟩, stands, fails⟩
    · intro h
      obtain ⟨i, d, u, before, stands, fails⟩ := h
      cases i with
      | zero =>
        cases before
        cases stands
        exact .inl fails
      | succ i =>
        obtain ⟨t, first, before⟩ := Trace.exists_of_bind_ok before
        exact .inr ⟨t, first, ih.mpr ⟨i, d, u, before, stands, fails⟩⟩

/-- The errors of a command. -/
def Refuses (s : State) (e : Error) : Command → Prop
  | .pop => s.stack.pop? = none ∧ e = .stackUnderflow
  | .transform _ (some knob) => SymbolTable.knob s.symbols knob = .error e
  | .solid _ material _ => SymbolTable.material s.symbols material = .error e
  | _ => False

theorem execute_error_iff {s : State} {c : Command} {e : Error} :
    (execute setting s c).outcome = .error e ↔ Refuses s e c := by
  cases c with
  | pop =>
    rw [execute, Refuses]
    cases s.stack.pop? with
    | none => simp [Trace.fail, eq_comm]
    | some stack => simp [Trace.pure_eq]
  | transform motion knob =>
    rw [execute, Trace.bind_error_iff]
    cases knob with
    | none => simp [Refuses, factor, Trace.ofExcept, Trace.pure_eq]
    | some knob => simp [Refuses, factor, Trace.ofExcept, Trace.pure_eq]
  | solid shape material system =>
    rw [execute, Trace.bind_error_iff, Refuses]
    refine or_iff_left ?_
    intro h
    obtain ⟨m, _, drawn⟩ := h
    cases system <;> cases drawn
  | _ =>
    constructor
    · intro fails
      cases fails
    · intro refused
      cases refused

/-- A frame fails at the command that fails. -/
theorem replay_error_iff {commands : List Command} {symbols : SymbolTable} {knobs : KnobValues}
    {e : Error} :
    (replay commands symbols knobs).outcome = .error e ↔
      ∃ (i : Nat) (c : Command) (s : State),
        (upTo commands symbols knobs i).outcome = .ok s ∧ commands[i]? = some c ∧
          (execute (.of symbols knobs) s c).outcome = .error e := by
  rw [replay, Trace.bind_error_iff]
  constructor
  · rintro (clear | ⟨_, _, fails⟩)
    · cases clear
    · rcases Trace.bind_error_iff.mp fails with inside | ⟨s, _, warned⟩
      · exact executeAll_error_iff.mp inside
      · split at warned
        · cases warned
        · cases warned
  · intro fails
    exact .inr ⟨(), rfl, Trace.bind_error_iff.mpr (.inl (executeAll_error_iff.mpr fails))⟩

end Frame

namespace Scene

variable {scene : Scene} {policy : FramePolicy} {directory : String} {e : Error}

/-- In the run of the scene, frame `f` turns these knobs. -/
def Turns (scene : Scene) (f : Nat) (knobs : KnobValues) : Prop :=
  ∃ policy frames, FramePolicy.ofCommands scene.commands = .ok policy ∧
    Timeline.ofCommands scene.commands policy.frames (SymbolTable.knobValues scene.symbols) =
      .ok frames ∧ frames[f]? = some knobs

/-- A frame that is replayed to its end. -/
def Completes (scene : Scene) (knobs : KnobValues) : Prop :=
  (Frame.replay scene.commands scene.symbols knobs).outcome = .ok ()

/-- The run of the scene comes to command `i` of frame `f`, which turns `knobs`, in the state `s`. -/
structure Reaches (scene : Scene) (f i : Nat) (knobs : KnobValues) (s : Frame.State) : Prop where
  turns : scene.Turns f knobs
  earlier : ∀ g knobs, g < f → scene.Turns g knobs → scene.Completes knobs
  point : (Frame.upTo scene.commands scene.symbols knobs i).outcome = .ok s

/-- The run of the scene fails at command `i`, which is `c`, of frame `f`. -/
def FailsAt (scene : Scene) (f i : Nat) (c : Command) (e : Error) : Prop :=
  ∃ knobs s, scene.Reaches f i knobs s ∧ scene.commands[i]? = some c ∧
    (Frame.execute (.of scene.symbols knobs) s c).outcome = .error e

theorem playFrame_outcome (f : Nat) (knobs : KnobValues) :
    (scene.playFrame policy directory f knobs).outcome =
      (Frame.replay scene.commands scene.symbols knobs).outcome := by
  rw [playFrame]
  generalize Frame.replay scene.commands scene.symbols knobs = replayed
  obtain ⟨events, outcome⟩ := replayed
  cases outcome <;> cases policy.isAnimated <;> rfl

theorem playFrames_error_iff {frames : List KnobValues} {first : Nat} :
    (scene.playFrames policy directory first frames).outcome = .error e ↔
      ∃ (f : Nat) (knobs : KnobValues), frames[f]? = some knobs ∧
        (∀ (g : Nat) (knobs : KnobValues), g < f → frames[g]? = some knobs →
          scene.Completes knobs) ∧
        (Frame.replay scene.commands scene.symbols knobs).outcome = .error e := by
  induction frames generalizing first with
  | nil => simp [playFrames, Trace.pure_eq]
  | cons knobs rest ih =>
    rw [playFrames, Trace.bind_error_iff, playFrame_outcome]
    constructor
    · rintro (here | ⟨⟨⟩, done, later⟩)
      · exact ⟨0, knobs, rfl, nofun, here⟩
      · obtain ⟨f, knobs', turned, earlier, fails⟩ := ih.mp later
        refine ⟨f + 1, knobs', turned, fun g other lt turned => ?_, fails⟩
        cases g with
        | zero =>
          cases turned
          exact done
        | succ g => exact earlier g other (Nat.lt_of_succ_lt_succ lt) turned
    · intro h
      obtain ⟨f, knobs', turned, earlier, fails⟩ := h
      cases f with
      | zero =>
        cases turned
        exact .inl fails
      | succ f =>
        refine .inr ⟨(), earlier 0 knobs (Nat.succ_pos f) rfl, ih.mpr ⟨f, knobs', turned, ?_, fails⟩⟩
        exact fun g other lt turned => earlier (g + 1) other (Nat.succ_lt_succ lt) turned

theorem turns_iff {frames : List KnobValues}
    (policed : FramePolicy.ofCommands scene.commands = .ok policy)
    (resolved : Timeline.ofCommands scene.commands policy.frames
      (SymbolTable.knobValues scene.symbols) = .ok frames) {f : Nat} {knobs : KnobValues} :
    scene.Turns f knobs ↔ frames[f]? = some knobs := by
  constructor
  · intro h
    obtain ⟨policy', frames', policed', resolved', turned⟩ := h
    obtain rfl := Except.ok.inj (policed.symm.trans policed')
    obtain rfl := Except.ok.inj (resolved.symm.trans resolved')
    exact turned
  · intro turned
    exact ⟨policy, frames, policed, resolved, turned⟩

theorem policy_outcome (scene : Scene) :
    (Replay.logging scene.policy).outcome = FramePolicy.ofCommands scene.commands := by
  rw [Scene.policy]
  generalize FramePolicy.ofCommands scene.commands = policy
  cases policy with
  | error e => rfl
  | ok policy =>
    obtain ⟨_, _, defaulted⟩ := policy
    cases defaulted <;> rfl

theorem playFrames_fails_iff {frames : List KnobValues} {first : Nat}
    (turns : ∀ (f : Nat) (knobs : KnobValues), scene.Turns f knobs ↔ frames[f]? = some knobs) :
    (scene.playFrames policy directory first frames).outcome = .error e ↔
      ∃ f i c, scene.FailsAt f i c e := by
  simp only [playFrames_error_iff, ← turns]
  constructor
  · intro h
    obtain ⟨f, knobs, turned, earlier, fails⟩ := h
    obtain ⟨i, c, s, point, stands, fails⟩ := Frame.replay_error_iff.mp fails
    exact ⟨f, i, c, knobs, s, ⟨turned, earlier, point⟩, stands, fails⟩
  · intro h
    obtain ⟨f, i, c, knobs, s, ⟨turned, earlier, point⟩, stands, fails⟩ := h
    exact ⟨f, knobs, turned, earlier, Frame.replay_error_iff.mpr ⟨i, c, s, point, stands, fails⟩⟩

/-- The errors of a run: of its policy, of its timeline, or of a command that it comes to. -/
theorem play_error_iff :
    (scene.play directory).outcome = .error e ↔
      FramePolicy.ofCommands scene.commands = .error e ∨
      (∃ policy, FramePolicy.ofCommands scene.commands = .ok policy ∧
        Timeline.ofCommands scene.commands policy.frames (SymbolTable.knobValues scene.symbols) =
          .error e) ∨
      ∃ f i c, scene.FailsAt f i c e := by
  rw [play, Trace.bind_error_iff, policy_outcome]
  refine or_congr_right ?_
  constructor
  · intro h
    obtain ⟨policy, policed, fails⟩ := h
    rcases Trace.bind_error_iff.mp fails with unresolved | ⟨frames, resolved, fails⟩
    · exact .inl ⟨policy, policed, unresolved⟩
    rcases Trace.bind_error_iff.mp fails with inside | ⟨_, _, ended⟩
    · exact .inr ((playFrames_fails_iff fun f knobs => turns_iff policed resolved).mp inside)
    · split at ended
      · cases ended
      · cases ended
  · rintro (⟨policy, policed, unresolved⟩ | fails)
    · exact ⟨policy, policed, Trace.bind_error_iff.mpr (.inl unresolved)⟩
    · obtain ⟨f, i, c, knobs, s, ⟨⟨policy, frames, policed, resolved, turned⟩, _, _⟩, _⟩ := id fails
      refine ⟨policy, policed, Trace.bind_error_iff.mpr (.inr ⟨frames, resolved, ?_⟩)⟩
      refine Trace.bind_error_iff.mpr (.inl ?_)
      exact (playFrames_fails_iff fun f knobs => turns_iff policed resolved).mpr fails

end Scene

/-! ### Hosts that refuse nothing -/

namespace Host

variable {σ : Type} {host : Host σ}

/-- A host that answers every call. -/
def Willing (host : Host σ) : Prop := ∀ c s, (host.call c s).2 = .ok ()

theorem perform_willing (willing : host.Willing) (events : List Event) (s : σ) :
    (host.perform events s).2 = .ok () := by
  induction events generalizing s with
  | nil => rfl
  | cons event rest ih =>
    cases event with
    | log entry => exact ih _
    | call c =>
      have answered := willing c s
      rw [perform]
      split
      · exact ih _
      · next refused =>
        rw [refused] at answered
        cases answered

/-- Without refused calls a run ends as the computation does. -/
theorem run_willing (willing : host.Willing) {α : Type} (r : Replay α) (s : σ) :
    (host.run r s).2 = r.outcome := by
  have answered := perform_willing willing r.events s
  rw [run]
  split
  · rfl
  · next refused =>
    rw [refused] at answered
    cases answered

end Host

end Flipbook

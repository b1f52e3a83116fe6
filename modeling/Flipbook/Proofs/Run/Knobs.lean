import Flipbook.Proofs.Frame.Definitions
import Flipbook.Proofs.Run.Failure
import Flipbook.Proofs.Scene.Bindings
import Flipbook.Proofs.Timeline.LastWriter

/-!
# The knobs that a run looks up

Reading a script declares every knob that it names, so no transform meets an unknown name. It can
still meet a name that is no knob: one that was defined after the transform had declared it.
`Missing` says when, and a run fails on a knob exactly there (`play_notAKnob_iff`).
-/

namespace Flipbook.Scene

open Script InOrder Flipbook.Frame

variable {origin source knob : String} {scene : Scene} {i : Nat} {knobs : KnobValues}
variable {s : Frame.State} {motion : Motion}

/-- The last statement about the name defines something else, and no knob has taken the name in a
frame that turns `knobs`, after these commands. -/
def Missing (origin source : String) (knobs : KnobValues) (commands : List Command)
    (knob : String) : Prop :=
  (∃ symbol, symbol.knob? = none ∧ Latest (Binds knob) (statements origin source) symbol) ∧
    ¬ Overwritten knobs commands knob

theorem missing_iff (parsed : (ofSource origin source).outcome = .ok scene)
    {commands : List Command} :
    Missing origin source knobs commands knob ↔
      (∃ symbol, symbol.knob? = none ∧ scene.symbols.get? knob = some symbol) ∧
        ¬ Overwritten knobs commands knob := by
  simp only [Missing, get?_ofSource parsed]

theorem knob_refused_of_missing (parsed : (ofSource origin source).outcome = .ok scene)
    (reached : (upTo scene.commands scene.symbols knobs i).outcome = .ok s)
    (missing : Missing origin source knobs (scene.commands.take i) knob) :
    SymbolTable.knob s.symbols knob = .error (.notAKnob knob) := by
  obtain ⟨⟨symbol, defined, bound⟩, kept⟩ := (missing_iff parsed).mp missing
  have stands := upTo_keeps reached defined bound kept
  exact SymbolTable.knob_eq_error.mpr (.inr ⟨symbol, stands, defined, rfl⟩)

/-- A transform finds its knob unless the knob is missing. -/
theorem knob_found_iff (parsed : (ofSource origin source).outcome = .ok scene)
    (reached : (upTo scene.commands scene.symbols knobs i).outcome = .ok s)
    (given : .transform motion (some knob) ∈ scene.commands) :
    (∃ value, SymbolTable.knob s.symbols knob = .ok value) ↔
      ¬ Missing origin source knobs (scene.commands.take i) knob := by
  constructor
  · rintro ⟨value, found⟩ missing
    rw [knob_refused_of_missing parsed reached missing] at found
    cases found
  · intro present
    simp only [SymbolTable.knob_eq_ok]
    rw [exists_knob_upTo_iff reached]
    obtain ⟨symbol, bound⟩ := exists_bound parsed given rfl
    cases kind : symbol.knob? with
    | some value => exact .inl ⟨value, by rw [bound, Symbol.knob?_eq_some.mp kind]⟩
    | none =>
      have taken : ¬¬ Overwritten knobs (scene.commands.take i) knob := fun kept =>
        present ((missing_iff parsed).mpr ⟨⟨symbol, kind, bound⟩, kept⟩)
      exact .inr (not_not.mp taken)

theorem knob_error_iff_missing (parsed : (ofSource origin source).outcome = .ok scene)
    (reached : (upTo scene.commands scene.symbols knobs i).outcome = .ok s)
    (given : .transform motion (some knob) ∈ scene.commands) {e : Error} :
    SymbolTable.knob s.symbols knob = .error e ↔
      e = .notAKnob knob ∧ Missing origin source knobs (scene.commands.take i) knob := by
  constructor
  · intro refused
    have missing : Missing origin source knobs (scene.commands.take i) knob := by
      refine not_not.mp fun present => ?_
      obtain ⟨value, found⟩ := (knob_found_iff parsed reached given).mpr present
      rw [refused] at found
      cases found
    rw [knob_refused_of_missing parsed reached missing] at refused
    exact ⟨(Except.error.inj refused).symm, missing⟩
  · intro h
    obtain ⟨rfl, missing⟩ := h
    exact knob_refused_of_missing parsed reached missing

/-! ### Runs -/

variable {directory : String} {e : Error}

/-- Only commands of frames fail on a name. -/
theorem failsAt_of_symbol (failed : (scene.play directory).outcome = .error e)
    (named : e.symbol?.isSome) : ∃ f i c, scene.FailsAt f i c e := by
  rcases play_error_iff.mp failed with policed | ⟨policy, _, unresolved⟩ | fails
  · rw [FramePolicy.ofCommands_symbol policed] at named
    cases named
  · rw [Timeline.ofCommands_symbol unresolved] at named
    cases named
  · exact fails

/-- A run that fails on a name fails at a transform, on its knob, or at a solid, on its material. -/
theorem failed_lookup (failed : (scene.play directory).outcome = .error e)
    (named : e.symbol?.isSome) :
    ∃ f i knobs s, scene.Reaches f i knobs s ∧
      ((∃ motion knob, scene.commands[i]? = some (.transform motion (some knob)) ∧
        SymbolTable.knob s.symbols knob = .error e) ∨
      ∃ shape material system, scene.commands[i]? = some (.solid shape material system) ∧
        SymbolTable.material s.symbols material = .error e) := by
  obtain ⟨f, i, c, knobs, s, reaches, stands, fails⟩ := failsAt_of_symbol failed named
  have refused : Refuses s e c := execute_error_iff.mp fails
  refine ⟨f, i, knobs, s, reaches, ?_⟩
  cases c with
  | pop =>
    obtain ⟨_, underflow⟩ := refused
    rw [underflow] at named
    cases named
  | transform motion knob =>
    cases knob with
    | none => cases refused
    | some knob => exact .inl ⟨motion, knob, stands, refused⟩
  | solid shape material system => exact .inr ⟨shape, material, system, stands, refused⟩
  | _ => cases refused

theorem play_notAKnob_iff (parsed : (ofSource origin source).outcome = .ok scene) :
    (scene.play directory).outcome = .error (.notAKnob knob) ↔
      ∃ f i knobs s motion, scene.Reaches f i knobs s ∧
        scene.commands[i]? = some (.transform motion (some knob)) ∧
        Missing origin source knobs (scene.commands.take i) knob := by
  constructor
  · intro failed
    obtain ⟨f, i, knobs, s, reaches, lookup⟩ := failed_lookup failed rfl
    rcases lookup with ⟨motion, other, stands, lost⟩ | ⟨_, reference, _, _, lost⟩
    · have given := List.mem_of_getElem? stands
      obtain ⟨same, missing⟩ := (knob_error_iff_missing parsed reaches.point given).mp lost
      cases same
      exact ⟨f, i, knobs, s, motion, reaches, stands, missing⟩
    · obtain ⟨name, _, unknown | ⟨_, _, _, other⟩⟩ := SymbolTable.material_eq_error.mp lost
      · cases unknown.2
      · cases other
  · intro h
    obtain ⟨f, i, knobs, s, motion, reaches, stands, missing⟩ := h
    have refused := knob_refused_of_missing parsed reaches.point missing
    have fails : scene.FailsAt f i (.transform motion (some knob)) (.notAKnob knob) :=
      ⟨knobs, s, reaches, stands, execute_error_iff.mpr refused⟩
    exact play_error_iff.mpr (.inr (.inr ⟨f, i, _, fails⟩))

theorem unknown_of_play (parsed : (ofSource origin source).outcome = .ok scene) {name : String}
    (failed : (scene.play directory).outcome = .error (.undefinedSymbol name)) :
    ∃ f i knobs s shape system, scene.Reaches f i knobs s ∧
      scene.commands[i]? = some (.solid shape (some name) system) ∧
      s.symbols.get? name = none := by
  obtain ⟨f, i, knobs, s, reaches, lookup⟩ := failed_lookup failed rfl
  rcases lookup with ⟨motion, other, stands, lost⟩ | ⟨shape, reference, system, stands, lost⟩
  · have given := List.mem_of_getElem? stands
    obtain ⟨same, _⟩ := (knob_error_iff_missing parsed reaches.point given).mp lost
    cases same
  · obtain ⟨other, rfl, ⟨unbound, same⟩ | ⟨_, _, _, same⟩⟩ := SymbolTable.material_eq_error.mp lost
    · cases same
      exact ⟨f, i, knobs, s, shape, system, reaches, stands, unbound⟩
    · cases same

/-- Under a host that answers every call, a script that can be read fails on a knob exactly at a
transform whose knob is missing, and then because its name is no knob. It fails on an unknown name
only where a solid names its material. A missing knob is defined by a statement after the one that
transforms by it. -/
theorem knob_refused_iff (parsed : (ofSource origin source).outcome = .ok scene) {σ : Type}
    {host : Host σ} (willing : host.Willing) (directory : String) (world : σ) :
    (∀ f i knobs s motion knob, scene.Reaches f i knobs s →
      scene.commands[i]? = some (.transform motion (some knob)) →
        ((∃ value, SymbolTable.knob s.symbols knob = .ok value) ↔
          ¬ Missing origin source knobs (scene.commands.take i) knob) ∧
        (Missing origin source knobs (scene.commands.take i) knob →
          ∃ (j k : Nat) (d : Statement) (symbol : Symbol), j < k ∧
            (statements origin source)[j]? = some (.command (.transform motion (some knob))) ∧
            (statements origin source)[k]? = some d ∧ symbol.knob? = none ∧
            Binds knob ((statements origin source).take k) d symbol)) ∧
    (∀ knob, (host.run (scene.play directory) world).2 = .error (.notAKnob knob) ↔
      ∃ f i knobs s motion, scene.Reaches f i knobs s ∧
        scene.commands[i]? = some (.transform motion (some knob)) ∧
        Missing origin source knobs (scene.commands.take i) knob) ∧
    ∀ name, (host.run (scene.play directory) world).2 = .error (.undefinedSymbol name) →
      ∃ f i knobs s shape system, scene.Reaches f i knobs s ∧
        scene.commands[i]? = some (.solid shape (some name) system) ∧
        s.symbols.get? name = none := by
  simp only [Host.run_willing willing]
  refine ⟨fun f i knobs s motion knob reaches stands => ?_, fun knob => play_notAKnob_iff parsed,
    fun name => unknown_of_play parsed⟩
  have given := List.mem_of_getElem? stands
  refine ⟨knob_found_iff parsed reaches.point given, fun missing => ?_⟩
  obtain ⟨⟨symbol, defined, bound⟩, _⟩ := (missing_iff parsed).mp missing
  obtain ⟨j, k, d, before, used, defines, binds⟩ :=
    defined_after_use parsed given rfl defined bound
  exact ⟨j, k, d, symbol, before, used, defines, defined, binds⟩

/-- Answers every call and keeps nothing. -/
def quietHost : Host Unit := ⟨fun _ s => (s, .ok ()), fun _ s => s⟩

/-- A knob whose name is not defined as anything else is never refused. -/
theorem knob_not_refused_beside_light :
    ∃ scene, (ofSource "t.mdl" "move 1 0 0 k\nlight j 255 0 0 0 0 1").outcome = .ok scene ∧
      ∀ knob, (quietHost.run (scene.play "anim") ()).2 ≠ .error (.notAKnob knob) := by
  let scene : Scene := ⟨[.transform (.move ⟨1, 0, 0⟩) (some "k")],
    .ofList [("j", .light ⟨255, 0, 0⟩ ⟨0, 0, 1⟩), ("k", .knob 0)]⟩
  have parsed : (ofSource "t.mdl" "move 1 0 0 k\nlight j 255 0 0 0 0 1").outcome = .ok scene :=
    ofSource_eq (by decide +kernel)
  refine ⟨scene, parsed, fun knob failed => ?_⟩
  have willing : quietHost.Willing := fun _ _ => rfl
  obtain ⟨_, refused, _⟩ := knob_refused_iff parsed willing "anim" ()
  obtain ⟨f, i, knobs, s, motion, _, stands, missing⟩ := (refused knob).mp failed
  have named : knob = "k" := by
    have given : .transform motion (some knob) ∈ scene.commands := List.mem_of_getElem? stands
    cases List.mem_singleton.mp given
    rfl
  subst named
  obtain ⟨⟨symbol, defined, last⟩, _⟩ := missing
  have bound : scene.symbols.get? "k" = some (.knob 0) := by decide +kernel
  rw [← get?_ofSource parsed, bound] at last
  cases last
  cases defined

/-- A light takes the name of the knob of a transform: the script can be read, and its run fails. -/
theorem knob_refused_behind_light :
    ∃ scene, (ofSource "t.mdl" "move 1 0 0 k\nlight k 255 0 0 0 0 1").outcome = .ok scene ∧
      ∀ {σ : Type} {host : Host σ}, host.Willing → ∀ world,
        (host.run (scene.play "anim") world).2 = .error (.notAKnob "k") := by
  refine ⟨⟨[.transform (.move ⟨1, 0, 0⟩) (some "k")],
    .ofList [("k", .light ⟨255, 0, 0⟩ ⟨0, 0, 1⟩)]⟩, ofSource_eq (by decide +kernel), ?_⟩
  intro σ host willing world
  rw [Host.run_willing willing]
  decide +kernel

end Flipbook.Scene

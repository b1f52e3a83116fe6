import Flipbook.Proofs.Script.Segments

/-!
# Which tokens are a scene

Tokens are a scene if they can be cut into segments and no command uses a name as a knob that
stands for something else by then (`ofTokens_ok_iff_splits`). The commands of the scene are those of
its segments.
-/

namespace Flipbook.Scene

open Script InOrder

variable {before stated : List Statement} {s : Statement} {d : Draft} {items : List Item}
variable {tokens : List Token} {scene : Scene}

/-- The name that a statement uses as a knob. -/
def usedKnob? (s : Statement) : Option String :=
  (command? s).bind Command.declaredKnob?

/-- A name that is used as a knob stands for nothing or for a knob. -/
def Fits (before : List Statement) (s : Statement) : Prop :=
  ∀ knob, usedKnob? s = some knob →
    ∀ symbol, Latest (Binds knob) before symbol → symbol.knob?.isSome

/-- No statement uses a name as a knob that stands for something else by then. -/
def KnobsFit : List Statement → Prop :=
  Always Fits

theorem declareKnob_ok_iff {t : SymbolTable} {knob : String} :
    (∃ t', t.declareKnob knob = .ok t') ↔
      ∀ symbol, t.get? knob = some symbol → symbol.knob?.isSome := by
  rw [SymbolTable.declareKnob]
  cases t.get? knob with
  | none => simp
  | some symbol => cases symbol <;> simp [Symbol.knob?]

theorem add_ok_iff (tells : Tells before d) :
    (∃ d' c?, d.add s = .ok (d', c?)) ↔ Fits before s := by
  cases s with
  | command c =>
    cases uses : c.declaredKnob? with
    | none => simp [Draft.add, Fits, usedKnob?, command?, uses]
    | some knob =>
      have declares := @declareKnob_ok_iff d.symbols knob
      simp only [tells.symbols] at declares
      simp only [Draft.add, Fits, usedKnob?, command?, Option.bind_some, uses, Option.some.injEq,
        forall_eq']
      rw [← declares]
      cases d.symbols.declareKnob knob <;> simp
  | light name color position => cases name <;> simp [Draft.add, Fits, usedKnob?, command?]
  | ambient color => simp [Draft.add, Fits, usedKnob?, command?]
  | material name m => simp [Draft.add, Fits, usedKnob?, command?]

/-- Binding the names of statements succeeds exactly if their knobs fit. -/
theorem ofItems_ok_iff (tells : Tells before d) (fit : KnobsFit before) :
    (∃ scene, (ofItems d items).outcome = .ok scene) ↔ KnobsFit (before ++ statementsIn items) := by
  induction items generalizing before d with
  | nil =>
    have done : ∃ scene, (ofItems d []).outcome = .ok scene := ⟨_, rfl⟩
    simpa only [statementsIn, List.filterMap_nil, List.append_nil, done, true_iff] using fit
  | cons item rest ih =>
    cases item with
    | log entry => exact ih tells fit
    | statement s =>
      show _ ↔ KnobsFit (before ++ s :: statementsIn rest)
      rw [List.append_cons]
      constructor
      · rintro ⟨scene, made⟩
        obtain ⟨⟨d', c?⟩, added, made⟩ := Trace.exists_of_bind_ok made
        obtain ⟨later, tail, _⟩ := Trace.exists_of_bind_ok made
        have fits := (add_ok_iff tells).mp ⟨d', c?, added⟩
        have tells' := (add_tells tells added).1
        exact (ih tells' (always_concat.mpr ⟨fit, fits⟩)).mp ⟨later, tail⟩
      · intro whole
        have fit' := always_of_append whole
        obtain ⟨d', c?, added⟩ := (add_ok_iff tells).mpr (always_concat.mp fit').2
        obtain ⟨later, tail⟩ := (ih (add_tells tells added).1 fit').mpr whole
        exact ⟨_, Trace.bind_ok_iff.mpr ⟨_, added, Trace.bind_ok_iff.mpr ⟨later, tail, rfl⟩⟩⟩

theorem add_error {error : Error} (failed : d.add s = .error error) :
    ∃ name, error = .notAKnob name := by
  unfold Draft.add at failed
  split at failed
  · split at failed
    · cases failed
    · next c knob _ =>
      split at failed
      · cases failed
      · next refused =>
        cases failed
        unfold SymbolTable.declareKnob at refused
        split at refused
        · cases refused
        · cases refused
        · cases refused
          exact ⟨knob, rfl⟩
  all_goals cases failed

/-- Binding names never fails on the grammar. -/
theorem ofItems_error {error : Error}
    (failed : (ofItems d items).outcome = .error error) : ∃ name, error = .notAKnob name := by
  induction items generalizing d with
  | nil => cases failed
  | cons item items ih =>
    cases item with
    | log entry =>
      rcases Trace.bind_error_iff.mp failed with other | ⟨_, _, failed⟩
      · cases other
      · exact ih failed
    | statement s =>
      rcases Trace.bind_error_iff.mp failed with added | ⟨⟨d', command?⟩, _, failed⟩
      · exact add_error added
      · rcases Trace.bind_error_iff.mp failed with later | ⟨_, _, other⟩
        · exact ih later
        · cases other

theorem statements?_of_ofTokens (made : (ofTokens tokens).outcome = .ok scene) :
    statements? tokens = some (statementsIn (outline tokens).events) := by
  obtain ⟨built, _, made⟩ := Trace.exists_of_bind_ok made
  rw [statements?]
  generalize outline tokens = read at made
  obtain ⟨items, e | ⟨⟩⟩ := read
  · cases made
  · rfl

/-- Tokens are a scene if they are statements whose knobs fit. -/
theorem ofTokens_ok_iff :
    (∃ scene, (ofTokens tokens).outcome = .ok scene) ↔
      ∃ statements, statements? tokens = some statements ∧ KnobsFit statements := by
  have binding := @ofItems_ok_iff [] .start (outline tokens).events tells_nil always_nil
  rw [List.nil_append] at binding
  constructor
  · rintro ⟨scene, made⟩
    exact ⟨_, statements?_of_ofTokens made, binding.mp ⟨scene, ofTokens_ok made⟩⟩
  · rintro ⟨statements, read, fit⟩
    rw [statements?] at read
    split at read
    · next items outlined =>
      cases read
      rw [outlined] at binding
      obtain ⟨scene, bound⟩ := binding.mpr fit
      rw [ofTokens, outlined]
      exact ⟨scene, Trace.bind_ok_iff.mpr ⟨scene, bound, rfl⟩⟩
    · cases read

/-- The table of a scene says of every name what the latest statement about it says, and its commands
are those of its statements. -/
theorem ofTokens_tells {statements : List Statement} (made : (ofTokens tokens).outcome = .ok scene)
    (read : statements? tokens = some statements) :
    (∀ name symbol, scene.symbols.get? name = some symbol ↔
      Latest (Binds name) statements symbol) ∧
      scene.commands = statements.filterMap command? := by
  rw [statements?_of_ofTokens made] at read
  cases read
  obtain ⟨tells, commands⟩ := ofItems_tells tells_nil (ofTokens_ok made)
  exact ⟨tells.symbols, commands⟩

end Flipbook.Scene

import Flipbook.Proofs.InOrder
import Flipbook.Script.Scene

/-!
# The bindings of a scene

The table of a scene, read off its statements: a name stands for what the latest statement about it
says, and a knob stands at 0 (`get?_ofSource`).
-/

namespace Flipbook.Scene

open Script InOrder

/-! ### Statements -/

/-- The statements of an outline. -/
def statementsIn (items : List Item) : List Statement :=
  items.filterMap fun item => match item with
    | .statement s => some s
    | .log _ => none

/-- The statements of a script. -/
def statements (origin source : String) : List Statement :=
  match tokenize origin source with
  | .ok tokens => statementsIn (outline tokens).events
  | .error _ => []

/-- The command of a statement. -/
def command? : Statement → Option Command
  | .command c => some c
  | _ => none

/-- Whether a statement gives a light without a name. -/
def isUnnamedLight : Statement → Bool
  | .light none _ _ => true
  | _ => false

/-- The number of lights without a name of their own. -/
def unnamedLights (statements : List Statement) : Nat :=
  statements.countP isUnnamedLight

/-- The name that a statement is about, and what it says of it. -/
def binding? (before : List Statement) : Statement → Option (String × Symbol)
  | .command c => c.declaredKnob?.map (·, .knob 0)
  | .light (some name) color position => some (name, .light color position)
  | .light none color position =>
    some (lightName (unnamedLights before + 1), .light color position)
  | .ambient color => some (SymbolTable.ambientName, .ambient color)
  | .material name m => some (name, .material m)

/-- A statement says of a name what it stands for. -/
def Binds (name : String) (before : List Statement) (s : Statement) (symbol : Symbol) : Prop :=
  binding? before s = some (name, symbol)

theorem unnamedLights_concat (before : List Statement) (s : Statement) :
    unnamedLights (before ++ [s]) = unnamedLights before + if isUnnamedLight s then 1 else 0 := by
  rw [unnamedLights, List.countP_append, List.countP_singleton]
  rfl

/-! ### One statement -/

/-- A draft says of every name what the statements so far say of it. -/
structure Tells (before : List Statement) (d : Draft) : Prop where
  lights : d.unnamedLights = unnamedLights before
  symbols : ∀ name symbol, d.symbols.get? name = some symbol ↔ Latest (Binds name) before symbol

variable {before : List Statement} {s : Statement} {d d' : Draft} {c? : Option Command}

theorem tells_nil : Tells [] .start where
  lights := rfl
  symbols name symbol := by
    have unbound : ¬ Latest (Binds name) [] symbol := latest_nil
    simp [Draft.start, unbound]

/-- A knob of a draft stands at 0. -/
theorem Tells.knob_zero (h : Tells before d) {name : String} {value : Float32}
    (bound : d.symbols.get? name = some (.knob value)) : value = 0 := by
  obtain ⟨i, s, _, binds, _⟩ := (h.symbols name _).mp bound
  rcases s with c | ⟨_ | _, _, _⟩ | _ | _
  · rw [Binds, binding?, Option.map_eq_some_iff] at binds
    obtain ⟨_, _, same⟩ := binds
    cases same
    rfl
  all_goals cases binds

/-- A statement about a name binds it and no other. -/
theorem Tells.bind (h : Tells before d) {name : String} {symbol : Symbol}
    (binds : binding? before s = some (name, symbol))
    (lights : d'.unnamedLights = unnamedLights (before ++ [s]))
    (symbols : ∀ other, d'.symbols.get? other =
      if name = other then some symbol else d.symbols.get? other) : Tells (before ++ [s]) d' where
  lights := lights
  symbols other found := by
    rw [symbols, latest_concat, ← h.symbols]
    simp only [Binds, binds]
    by_cases same : name = other
    · simp [same]
    · simp [same]

/-- A statement about no name keeps all names. -/
theorem Tells.idle (h : Tells before d) (still : binding? before s = none)
    (lights : unnamedLights (before ++ [s]) = unnamedLights before) : Tells (before ++ [s]) d where
  lights := h.lights.trans lights.symm
  symbols name found := by
    rw [latest_concat, h.symbols]
    simp [Binds, still]

/-- Declaring a knob leaves it standing at 0. -/
theorem Tells.declare (h : Tells before d) {knob : String} {symbols : SymbolTable}
    (declared : d.symbols.declareKnob knob = .ok symbols) (other : String) :
    symbols.get? other = if knob = other then some (.knob 0) else d.symbols.get? other := by
  rw [SymbolTable.declareKnob] at declared
  split at declared
  · cases declared
    exact NameMap.get?_insert _ _ _ _
  · next value bound =>
    cases declared
    obtain rfl := h.knob_zero bound
    by_cases same : knob = other
    · subst same
      simp [bound]
    · simp [same]
  · cases declared

theorem Tells.command (h : Tells before d) {c : Command}
    (added : d.add (.command c) = .ok (d', c?)) : Tells (before ++ [.command c]) d' ∧ c? = some c := by
  have lights : d.unnamedLights = unnamedLights (before ++ [.command c]) := by
    rw [unnamedLights_concat, h.lights]
    rfl
  cases declares : c.declaredKnob? with
  | none =>
    simp only [Draft.add, declares] at added
    cases added
    exact ⟨h.idle (by simp [binding?, declares]) (lights.symm.trans h.lights), rfl⟩
  | some knob =>
    simp only [Draft.add, declares] at added
    split at added
    · next symbols declared =>
      cases added
      exact ⟨h.bind (by simp [binding?, declares]) lights (h.declare declared), rfl⟩
    · cases added

theorem add_tells (h : Tells before d) (added : d.add s = .ok (d', c?)) :
    Tells (before ++ [s]) d' ∧ c? = command? s := by
  rcases s with c | ⟨_ | name, color, position⟩ | color | ⟨name, m⟩
  case command => exact h.command added
  case light.none =>
    cases added
    refine ⟨h.bind (by rw [binding?, ← h.lights]) ?_ (NameMap.get?_insert _ _ _), rfl⟩
    rw [unnamedLights_concat, ← h.lights]
    rfl
  all_goals
    cases added
    refine ⟨h.bind rfl ?_ (NameMap.get?_insert _ _ _), rfl⟩
    rw [unnamedLights_concat, h.lights]
    rfl

/-! ### All statements -/

theorem ofItems_tells {items : List Item} {scene : Scene} (h : Tells before d)
    (made : (ofItems d items).outcome = .ok scene) :
    Tells (before ++ statementsIn items) ⟨scene.symbols, unnamedLights (before ++ statementsIn items)⟩ ∧
      scene.commands = (statementsIn items).filterMap command? := by
  induction items generalizing before d scene with
  | nil =>
    cases made
    simp only [statementsIn, List.filterMap_nil, List.append_nil, and_true]
    exact ⟨rfl, h.symbols⟩
  | cons item rest ih =>
    cases item with
    | log entry =>
      obtain ⟨_, _, made⟩ := Trace.exists_of_bind_ok made
      exact ih h made
    | statement s =>
      obtain ⟨⟨d', c?⟩, added, made⟩ := Trace.exists_of_bind_ok made
      obtain ⟨later, tail, made⟩ := Trace.exists_of_bind_ok made
      cases made
      obtain ⟨h', rfl⟩ := add_tells h added
      obtain ⟨tells, commands⟩ := ih h' tail
      rw [List.append_assoc] at tells
      refine ⟨tells, ?_⟩
      show (command? s).toList ++ later.commands = _
      rw [commands, show statementsIn (.statement s :: rest) = s :: statementsIn rest from rfl]
      cases made : command? s <;> simp [made]

theorem ofTokens_ok {tokens : List Token} {scene : Scene}
    (made : (ofTokens tokens).outcome = .ok scene) :
    (ofItems .start (outline tokens).events).outcome = .ok scene := by
  obtain ⟨built, outcome, made⟩ := Trace.exists_of_bind_ok made
  split at made
  · cases made
    exact outcome
  · cases made

variable {origin source : String} {scene : Scene}

theorem ofSource_tells (parsed : (ofSource origin source).outcome = .ok scene) :
    Tells (statements origin source) ⟨scene.symbols, unnamedLights (statements origin source)⟩ ∧
      scene.commands = (statements origin source).filterMap command? := by
  rw [ofSource] at parsed
  split at parsed
  · next tokens lexed =>
    have stated : statements origin source = statementsIn (outline tokens).events := by
      rw [statements, lexed]
    rw [stated]
    exact ofItems_tells tells_nil (ofTokens_ok parsed)
  · cases parsed

/-- The table of a script: a name stands for what the latest statement about it says. -/
theorem get?_ofSource (parsed : (ofSource origin source).outcome = .ok scene) (name : String)
    (symbol : Symbol) :
    scene.symbols.get? name = some symbol ↔
      Latest (Binds name) (statements origin source) symbol :=
  (ofSource_tells parsed).1.symbols name symbol

theorem commands_ofSource (parsed : (ofSource origin source).outcome = .ok scene) :
    scene.commands = (statements origin source).filterMap command? :=
  (ofSource_tells parsed).2

theorem exists_statement (parsed : (ofSource origin source).outcome = .ok scene) {c : Command}
    (given : c ∈ scene.commands) : ∃ j : Nat, (statements origin source)[j]? = some (.command c) := by
  rw [commands_ofSource parsed, List.mem_filterMap] at given
  obtain ⟨s, member, made⟩ := given
  obtain ⟨j, stands⟩ := List.mem_iff_getElem?.mp member
  refine ⟨j, stands.trans ?_⟩
  cases s with
  | command =>
    cases made
    rfl
  | _ => cases made

/-- A name that a command uses as a knob is bound, to a knob or to something else. -/
theorem exists_bound (parsed : (ofSource origin source).outcome = .ok scene) {c : Command}
    {knob : String} (given : c ∈ scene.commands) (uses : c.declaredKnob? = some knob) :
    ∃ symbol, scene.symbols.get? knob = some symbol := by
  obtain ⟨j, stands⟩ := exists_statement parsed given
  simp only [get?_ofSource parsed]
  exact exists_latest_iff.mpr ⟨j, _, .knob 0, stands, by simp [Binds, binding?, uses]⟩

/-- A name that a command uses as a knob stands for something else only if a later statement says
so. The other order is refused. -/
theorem defined_after_use (parsed : (ofSource origin source).outcome = .ok scene) {c : Command}
    {name : String} {symbol : Symbol} (given : c ∈ scene.commands)
    (uses : c.declaredKnob? = some name) (defined : symbol.knob? = none)
    (bound : scene.symbols.get? name = some symbol) :
    ∃ (j k : Nat) (s : Statement), j < k ∧ (statements origin source)[j]? = some (.command c) ∧
      (statements origin source)[k]? = some s ∧
      Binds name ((statements origin source).take k) s symbol := by
  obtain ⟨j, stands⟩ := exists_statement parsed given
  obtain ⟨k, s, last, binds, noLater⟩ := (get?_ofSource parsed name symbol).mp bound
  have knob (before : List Statement) : Binds name before (.command c) (.knob 0) := by
    simp [Binds, binding?, uses]
  refine ⟨j, k, s, ?_, stands, last, binds⟩
  rcases Nat.lt_trichotomy j k with before | same | after
  · exact before
  · subst same
    obtain rfl := Option.some.inj (stands.symm.trans last)
    have same := (knob _).symm.trans binds
    cases same
    cases defined
  · -- A use behind the definition would be a later statement about the name.
    exact absurd (knob _) (noLater j (.command c) _ after stands)

/-! ### Reading a given script -/

/-- A scene is compared with the one that is read by its commands and the entries of its table.
Tables with the same entries are equal, but that their order is proved the same is nothing to
compute. -/
theorem ofSource_eq (reads : ((ofSource origin source).outcome.toOption.any fun found =>
      found.commands = scene.commands ∧ found.symbols.entries = scene.symbols.entries) = true) :
    (ofSource origin source).outcome = .ok scene := by
  generalize (ofSource origin source).outcome = read at reads
  cases read with
  | error e => cases reads
  | ok found =>
    obtain ⟨commands, entries, _⟩ := found
    obtain ⟨commands', entries', _⟩ := scene
    obtain ⟨rfl, rfl⟩ := of_decide_eq_true reads
    rfl

end Flipbook.Scene

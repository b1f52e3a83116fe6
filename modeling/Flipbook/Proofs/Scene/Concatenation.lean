import Flipbook.Proofs.Scene.Grammar
import Flipbook.Proofs.Script.Concatenation

/-!
# Scenes behind each other

A name fits as a knob unless a definition of it stands before (`knobsFit_iff`). The definitions of a
script are also there when other statements stand before it: its lights without a name are called by
higher numbers then, but the lower ones are taken as well. So a script that is accepted behind
another one is accepted on its own, and what stands between the two and starts no statement makes no
difference.
-/

namespace Flipbook.Scene

open Script InOrder

variable {before stated later : List Statement} {s : Statement} {name : String} {symbol : Symbol}

/-! ### Names that are taken -/

/-- The name that a statement defines, if the statement says it. -/
def definedName? : Statement → Option String
  | .light name _ _ => name
  | .ambient _ => some SymbolTable.ambientName
  | .material name _ => some name
  | .command _ => none

/-- A definition of a name is among the statements, by its name or by its number. -/
def Defined (name : String) (stated : List Statement) : Prop :=
  (∃ s ∈ stated, definedName? s = some name) ∨
    ∃ n, 0 < n ∧ n ≤ unnamedLights stated ∧ lightName n = name

theorem Defined.append (defined : Defined name stated) (before : List Statement) :
    Defined name (before ++ stated) := by
  rcases defined with ⟨s, member, named⟩ | ⟨n, positive, within, numbered⟩
  · exact .inl ⟨s, List.mem_append_right before member, named⟩
  · have more : unnamedLights stated ≤ unnamedLights (before ++ stated) := by
      simp [unnamedLights]
    exact .inr ⟨n, positive, Nat.le_trans within more, numbered⟩

/-- A statement defines a name behind others, by its name or by the next number. -/
def Defines (name : String) (before : List Statement) (s : Statement) : Prop :=
  definedName? s = some name ∨
    isUnnamedLight s = true ∧ lightName (unnamedLights before + 1) = name

theorem defined_nil : ¬ Defined name [] := by
  rintro (⟨s, member, _⟩ | ⟨n, positive, within, _⟩)
  · cases member
  · exact absurd within (Nat.not_le.mpr positive)

theorem defined_concat :
    Defined name (stated ++ [s]) ↔ Defined name stated ∨ Defines name stated s := by
  have lights := unnamedLights_concat stated s
  constructor
  · rintro (⟨other, member, named⟩ | ⟨n, positive, within, numbered⟩)
    · rcases List.mem_append.mp member with old | new
      · exact .inl (.inl ⟨other, old, named⟩)
      · cases List.mem_singleton.mp new
        exact .inr (.inl named)
    · by_cases old : n ≤ unnamedLights stated
      · exact .inl (.inr ⟨n, positive, old, numbered⟩)
      · split at lights
        · next unnamed =>
          have last : n = unnamedLights stated + 1 := by omega
          exact .inr (.inr ⟨unnamed, last ▸ numbered⟩)
        · omega
  · rintro ((⟨other, member, named⟩ | ⟨n, positive, within, numbered⟩) | named | ⟨unnamed, numbered⟩)
    · exact .inl ⟨other, List.mem_append_left _ member, named⟩
    · exact .inr ⟨n, positive, by omega, numbered⟩
    · exact .inl ⟨s, by simp, named⟩
    · rw [if_pos unnamed] at lights
      exact .inr ⟨_, Nat.succ_pos _, Nat.le_of_eq lights.symm, numbered⟩

/-- What a statement says of a name makes it a knob or defines it. -/
theorem binds_defined_iff :
    (∃ symbol, Binds name before s symbol ∧ symbol.knob? = none) ↔ Defines name before s := by
  rcases s with c | ⟨_ | _, _, _⟩ | _ | _
  case command =>
    simp only [Binds, binding?, Defines, definedName?, isUnnamedLight]
    cases c.declaredKnob? <;> simp [Symbol.knob?]
  all_goals simp [Binds, binding?, Defines, definedName?, isUnnamedLight, Symbol.knob?]

theorem usedKnob?_of_binds (binds : Binds name before s symbol) (knob : symbol.knob?.isSome) :
    usedKnob? s = some name := by
  rcases s with c | ⟨_ | _, _, _⟩ | _ | _
  case command =>
    obtain ⟨used, uses, same⟩ := Option.map_eq_some_iff.mp binds
    cases same
    exact uses
  all_goals
    cases binds
    cases knob

/-- Once a name is defined it stays so, as no later statement may use it as a knob. -/
theorem latest_defined_iff (fit : KnobsFit stated) :
    (∃ symbol, Latest (Binds name) stated symbol ∧ symbol.knob? = none) ↔ Defined name stated := by
  induction stated using List.reverseRecOn with
  | nil =>
    have nothing (symbol : Symbol) : ¬ Latest (Binds name) [] symbol := latest_nil
    simp [defined_nil, nothing]
  | append_singleton stated s ih =>
    obtain ⟨fit, fits⟩ := always_concat.mp fit
    rw [defined_concat, ← ih fit, ← binds_defined_iff]
    constructor
    · rintro ⟨symbol, latest, defined⟩
      rcases latest_concat.mp latest with here | ⟨_, early⟩
      · exact .inr ⟨symbol, here, defined⟩
      · exact .inl ⟨symbol, early, defined⟩
    · rintro (⟨symbol, early, defined⟩ | ⟨symbol, here, defined⟩)
      · by_cases again : ∃ other, Binds name stated s other ∧ other.knob? = none
        · obtain ⟨other, here, defined⟩ := again
          exact ⟨other, latest_concat.mpr (.inl here), defined⟩
        · refine ⟨symbol, latest_concat.mpr (.inr ⟨fun other binds => ?_, early⟩), defined⟩
          cases knob : other.knob? with
          | none => exact again ⟨other, binds, knob⟩
          | some value =>
            -- To make the name a knob again would have been refused.
            have used := usedKnob?_of_binds binds (by rw [knob]; rfl)
            have refused := fits name used symbol early
            rw [defined] at refused
            cases refused
      · exact ⟨symbol, latest_concat.mpr (.inl here), defined⟩

/-- The name that a statement uses as a knob is not defined before. -/
def UsesFree (before : List Statement) (s : Statement) : Prop :=
  ∀ knob, usedKnob? s = some knob → ¬ Defined knob before

theorem fits_iff (fit : KnobsFit before) : Fits before s ↔ UsesFree before s := by
  simp only [UsesFree, ← latest_defined_iff fit]
  constructor
  · rintro fits knob used ⟨symbol, latest, defined⟩
    have refused := fits knob used symbol latest
    rw [defined] at refused
    cases refused
  · intro free knob used symbol latest
    cases defined : symbol.knob? with
    | none => exact absurd ⟨symbol, latest, defined⟩ (free knob used)
    | some value => rfl

/-- The knobs of a script fit exactly if none of them is defined before its use. -/
theorem knobsFit_iff : KnobsFit stated ↔ Always UsesFree stated := by
  induction stated using List.reverseRecOn with
  | nil => exact iff_of_true always_nil always_nil
  | append_singleton stated s ih =>
    rw [KnobsFit, always_concat, always_concat, ← ih]
    exact and_congr_right fun fit => fits_iff fit

/-- Statements that fit behind others fit on their own. -/
theorem knobsFit_of_append (fit : KnobsFit (before ++ later)) : KnobsFit later := by
  rw [knobsFit_iff] at fit ⊢
  intro i s stands knob used defined
  have position : (before ++ later)[before.length + i]? = some s := by
    rw [List.getElem?_append_right (Nat.le_add_right ..), Nat.add_sub_cancel_left, stands]
  have free := fit _ s position knob used
  rw [List.take_length_add_append] at free
  exact free (defined.append before)

/-! ### Scripts behind each other -/

variable {origin source first second ignored : String} {scene scene' above : Scene}

/-- The statements of a script, if it can be read. -/
def statementsOf? (origin source : String) : Option (List Statement) :=
  (tokenize origin source).toOption.bind statements?

theorem statementsOf?_of_ok {tokens : List Token} (lexed : tokenize origin source = .ok tokens) :
    statementsOf? origin source = statements? tokens := by
  rw [statementsOf?, lexed]
  rfl

theorem statementsOf?_eq_some_iff : statementsOf? origin source = some stated ↔
    ∃ tokens, tokenize origin source = .ok tokens ∧ statements? tokens = some stated := by
  rw [statementsOf?]
  cases tokenize origin source <;> simp [Except.toOption]

theorem statementsOf?_append (read : statementsOf? origin first = some stated) (second : String) :
    statementsOf? origin (first ++ "\n" ++ second) =
      (statementsOf? origin second).map (stated ++ ·) := by
  obtain ⟨above, lexed, said⟩ := statementsOf?_eq_some_iff.mp read
  cases lexed' : tokenize origin second with
  | error e =>
    have unread : ∀ tokens, tokenize origin (first ++ "\n" ++ second) ≠ .ok tokens := by
      intro tokens joined
      obtain ⟨_, below, _, lexes, _⟩ := tokenize_append_ok_iff.mp joined
      rw [lexed'] at lexes
      cases lexes
    rw [statementsOf?, statementsOf?, lexed']
    cases joined : tokenize origin (first ++ "\n" ++ second) with
    | error e => rfl
    | ok tokens => exact absurd joined (unread tokens)
  | ok below =>
    have joined := tokenize_append_ok_iff.mpr ⟨above, below, lexed, lexed', rfl⟩
    have apart := apart_of_tokenize lexed lexed'
    rw [statementsOf?_of_ok joined, statementsOf?_of_ok lexed', statements?_append said apart,
      statements?_down]

theorem ofSource_ok_iff : (∃ scene, (ofSource origin source).outcome = .ok scene) ↔
    ∃ stated, statementsOf? origin source = some stated ∧ KnobsFit stated := by
  rw [ofSource]
  cases lexed : tokenize origin source with
  | error e =>
    rw [statementsOf?, lexed]
    simp [Trace.fail, Except.toOption]
  | ok tokens =>
    rw [statementsOf?_of_ok lexed]
    exact ofTokens_ok_iff

theorem statementsOf?_of_ofSource (parsed : (ofSource origin source).outcome = .ok scene) :
    statementsOf? origin source = some (statements origin source) := by
  rw [ofSource] at parsed
  cases lexed : tokenize origin source with
  | error e =>
    rw [lexed] at parsed
    cases parsed
  | ok tokens =>
    rw [lexed] at parsed
    rw [statementsOf?_of_ok lexed, statements, lexed]
    exact statements?_of_ofTokens parsed

theorem ofSource_of_same (same : statementsOf? origin first = statementsOf? origin second)
    (parsed : (ofSource origin first).outcome = .ok scene) :
    (ofSource origin second).outcome = .ok scene := by
  obtain ⟨stated, read, fit⟩ := ofSource_ok_iff.mp ⟨scene, parsed⟩
  obtain ⟨scene', parsed'⟩ := ofSource_ok_iff.mpr ⟨stated, same ▸ read, fit⟩
  have read' := statementsOf?_of_ofSource parsed'
  rw [← same, statementsOf?_of_ofSource parsed] at read'
  have statements := Option.some.inj read'
  have commands : scene.commands = scene'.commands := by
    rw [commands_ofSource parsed, commands_ofSource parsed', statements]
  have symbols : scene.symbols = scene'.symbols := by
    refine NameMap.ext fun name => Option.ext fun symbol => ?_
    rw [get?_ofSource parsed, get?_ofSource parsed', statements]
  obtain ⟨_, _⟩ := scene
  obtain ⟨_, _⟩ := scene'
  cases commands
  cases symbols
  exact parsed'

/-- Tokens that start no statement make no difference between two scripts, and the commands of the
two are those of the one and those of the other. -/
theorem ofSource_concatenates (parsed : (ofSource origin first).outcome = .ok above)
    {tokens : List Token} (lexed : tokenize origin ignored = .ok tokens)
    (plain : ∀ token ∈ tokens, token.isCommand = false) (second : String) :
    (∀ scene, (ofSource origin (first ++ "\n" ++ ignored ++ "\n" ++ second)).outcome = .ok scene ↔
      (ofSource origin (first ++ "\n" ++ second)).outcome = .ok scene) ∧
    ∀ scene, (ofSource origin (first ++ "\n" ++ second)).outcome = .ok scene →
      ∃ below, (ofSource origin second).outcome = .ok below ∧
        scene.commands = above.commands ++ below.commands := by
  have read := statementsOf?_of_ofSource parsed
  have empty : statementsOf? origin ignored = some [] := by
    rw [statementsOf?_of_ok lexed, statements?_of_plain plain]
  have extended := statementsOf?_append read ignored
  rw [empty, Option.map_some, List.append_nil] at extended
  have same : statementsOf? origin (first ++ "\n" ++ ignored ++ "\n" ++ second) =
      statementsOf? origin (first ++ "\n" ++ second) := by
    rw [statementsOf?_append extended, statementsOf?_append read]
  refine ⟨fun scene => ⟨ofSource_of_same same, ofSource_of_same same.symm⟩, ?_⟩
  intro scene joined
  obtain ⟨_, whole, fit⟩ := ofSource_ok_iff.mp ⟨scene, joined⟩
  rw [statementsOf?_append read] at whole
  obtain ⟨later, read', rfl⟩ := Option.map_eq_some_iff.mp whole
  obtain ⟨below, parsed'⟩ := ofSource_ok_iff.mpr ⟨later, read', knobsFit_of_append fit⟩
  refine ⟨below, parsed', ?_⟩
  rw [statementsOf?_of_ofSource parsed'] at read'
  cases read'
  have all := statementsOf?_of_ofSource joined
  rw [statementsOf?_append read, statementsOf?_of_ofSource parsed', Option.map_some] at all
  rw [commands_ofSource joined, commands_ofSource parsed, commands_ofSource parsed',
    ← Option.some.inj all, List.filterMap_append]

/-- A name on the line behind a move is neither its knob nor anything else. -/
theorem move_leaves_ignored_line :
    ∃ tokens scene, tokenize "t.mdl" "k 3" = .ok tokens ∧
      (∀ token ∈ tokens, token.isCommand = false) ∧
      (ofSource "t.mdl" "move 1 0 0\nk 3\npop").outcome = .ok scene ∧
      (ofSource "t.mdl" "move 1 0 0\npop").outcome = .ok scene ∧
      scene.commands = [.transform (.move ⟨1, 0, 0⟩) none, .pop] := by
  have parsed : (ofSource "t.mdl" "move 1 0 0").outcome =
      .ok ⟨[.transform (.move ⟨1, 0, 0⟩) none], .empty⟩ := ofSource_eq (by decide +kernel)
  have joined : (ofSource "t.mdl" "move 1 0 0\npop").outcome =
      .ok ⟨[.transform (.move ⟨1, 0, 0⟩) none, .pop], .empty⟩ := ofSource_eq (by decide +kernel)
  have lexed : tokenize "t.mdl" "k 3" =
      .ok [⟨.name, "k", ⟨"t.mdl", 1⟩⟩, ⟨.number, "3", ⟨"t.mdl", 1⟩⟩] := by decide +kernel
  have plain : ∀ token ∈ [(⟨.name, "k", ⟨"t.mdl", 1⟩⟩ : Token), ⟨.number, "3", ⟨"t.mdl", 1⟩⟩],
      token.isCommand = false := by decide
  obtain ⟨skipped, _⟩ := ofSource_concatenates parsed lexed plain "pop"
  exact ⟨_, _, lexed, plain, (skipped _).mpr joined, joined, rfl⟩

end Flipbook.Scene

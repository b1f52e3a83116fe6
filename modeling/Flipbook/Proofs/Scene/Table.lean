import Flipbook.Proofs.Scene.Concatenation
import Flipbook.Proofs.Script.Names

/-!
# The table of a scene

What a name stands for is what the last statement about it says. The name of the ambient light is in
the same table, but it is a keyword, so no other statement can be about it
(`table_of_last_statements`).
-/

namespace Flipbook.Scene

open Script InOrder

variable {origin source : String} {scene : Scene} {before : List Statement} {s : Statement}
variable {name : String} {symbol : Symbol}

/-! ### What a statement says -/

/-- A statement gives a name its meaning, as a light, as a material or as a knob. -/
inductive Gives (name : String) (before : List Statement) : Statement → Symbol → Prop
  | light (color position : Vec3 Float32) :
      Gives name before (.light (some name) color position) (.light color position)
  | unnamedLight (color position : Vec3 Float32)
      (number : lightName (unnamedLights before + 1) = name) :
      Gives name before (.light none color position) (.light color position)
  | material (m : Material Float32) : Gives name before (.material name m) (.material m)
  | transform (motion : Motion) :
      Gives name before (.command (.transform motion (some name))) (.knob 0)
  | set (value : Float32) : Gives name before (.command (.set name value)) (.knob 0)
  | vary (range : FrameRange) (start stop : Float32) (easing : Option Easing) :
      Gives name before (.command (.vary name range start stop easing)) (.knob 0)

theorem gives_of_declaredKnob? {c : Command} (uses : c.declaredKnob? = some name) :
    Gives name before (.command c) (.knob 0) := by
  cases c with
  | transform motion knob =>
    obtain rfl : knob = some name := uses
    exact .transform motion
  | set knob value =>
    cases uses
    exact .set value
  | vary knob range start stop easing =>
    cases uses
    exact .vary range start stop easing
  | _ => cases uses

theorem binds_iff : Binds name before s symbol ↔ Gives name before s symbol ∨
    ∃ color, s = .ambient color ∧ name = SymbolTable.ambientName ∧ symbol = .ambient color := by
  constructor
  · intro binds
    rcases s with c | ⟨_ | _, color, position⟩ | color | ⟨_, m⟩
    · obtain ⟨knob, uses, same⟩ := Option.map_eq_some_iff.mp binds
      cases same
      exact .inl (gives_of_declaredKnob? uses)
    · cases binds
      exact .inl (.unnamedLight color position rfl)
    · cases binds
      exact .inl (.light color position)
    · cases binds
      exact .inr ⟨color, rfl, rfl, rfl⟩
    · cases binds
      exact .inl (.material m)
  · rintro (gives | ⟨color, rfl, rfl, rfl⟩)
    · cases gives with
      | unnamedLight color position number =>
        rw [← number]
        rfl
      | _ => rfl
    · rfl

/-! ### The name of the ambient light -/

theorem lightName_ne_ambient (n : Nat) : lightName n ≠ SymbolTable.ambientName := by
  intro same
  have written : lightName n = "light_" ++ toString n := by
    simp [lightName, toString]
  rw [written] at same
  have first := congrArg (·.toList.head?) same
  simp [SymbolTable.ambientName] at first

/-- The names that a statement is about are among its arguments, apart from those of unnamed
lights. -/
theorem mem_argumentNames {k : Keyword} {values : Arguments k.slots}
    (gives : Gives name before (k.statement values) symbol) :
    name ∈ argumentNames k.slots values ∨ ∃ n, lightName n = name := by
  cases k with
  | constants | set | vary =>
    obtain ⟨first, rest⟩ := values
    cases gives
    exact .inl (List.mem_append_left _ (List.mem_singleton_self _))
  | light =>
    obtain ⟨name?, rest⟩ := values
    cases gives with
    | light => exact .inl (List.mem_append_left _ (List.mem_singleton_self _))
    | unnamedLight _ _ number => exact .inr ⟨_, number⟩
  | move | scale =>
    obtain ⟨x, y, z, knob, _⟩ := values
    cases gives
    simp [argumentNames, Slot.names, Keyword.slots]
  | rotate =>
    obtain ⟨axis, degrees, knob, _⟩ := values
    cases gives
    simp [argumentNames, Slot.names, Keyword.slots]
  | _ => cases gives

/-- The statement sets the ambient light. -/
def ambient? : Statement → Option (Vec3 Float32)
  | .ambient color => some color
  | _ => none

/-- The color of the last ambient light among statements. -/
def lastAmbient? (stated : List Statement) : Option (Vec3 Float32) :=
  (stated.filterMap ambient?).getLast?

theorem lastAmbient?_concat (stated : List Statement) (s : Statement) :
    lastAmbient? (stated ++ [s]) = (ambient? s).or (lastAmbient? stated) := by
  rw [lastAmbient?, lastAmbient?, List.filterMap_append]
  cases sets : ambient? s with
  | none => rw [List.filterMap_cons_none sets, List.filterMap_nil, List.append_nil, Option.none_or]
  | some color =>
    rw [List.filterMap_cons_some sets, List.filterMap_nil, List.getLast?_concat, Option.some_or]

/-- No statement uses the name of the ambient light for anything else. -/
def AmbientKept : List Statement → Prop :=
  Always fun before s => ∀ symbol, ¬ Gives SymbolTable.ambientName before s symbol

theorem latest_ambient_iff {stated : List Statement} (kept : AmbientKept stated) :
    Latest (Binds SymbolTable.ambientName) stated symbol ↔
      (lastAmbient? stated).map .ambient = some symbol := by
  induction stated using List.reverseRecOn with
  | nil => simp [latest_nil, lastAmbient?]
  | append_singleton stated s ih =>
    obtain ⟨kept, last⟩ := always_concat.mp kept
    have ih := ih kept
    have binds (symbol : Symbol) : Binds SymbolTable.ambientName stated s symbol ↔
        (ambient? s).map .ambient = some symbol := by
      rw [binds_iff, or_iff_right (last symbol)]
      cases s <;> simp [ambient?, eq_comm]
    rw [latest_concat, lastAmbient?_concat, ih]
    simp only [binds]
    cases ambient? s with
    | none => simp
    | some color => simp

/-! ### The ambient light of a table -/

/-- The symbol if it is the ambient light. -/
def ambientOnly? : Symbol → Option Symbol
  | .ambient color => some (.ambient color)
  | _ => none

theorem ambientLight_only (t : SymbolTable) :
    SymbolTable.ambientLight (t.filterMap ambientOnly?) = SymbolTable.ambientLight t := by
  rw [SymbolTable.ambientLight, SymbolTable.ambientLight, NameMap.values_filterMap]
  generalize Lighting.standardAmbient = found
  induction t.values generalizing found with
  | nil => rfl
  | cons s rest ih => cases s <;> exact ih _

theorem ambientLight_eq {t : SymbolTable} {color? : Option (Vec3 Float32)}
    (bound : t.get? SymbolTable.ambientName = color?.map .ambient)
    (only : ∀ name color, t.get? name = some (.ambient color) → name = SymbolTable.ambientName) :
    SymbolTable.ambientLight t = color?.getD Lighting.standardAmbient := by
  have elsewhere (name : String) (other : name ≠ SymbolTable.ambientName) :
      (t.get? name).bind ambientOnly? = none := by
    cases found : t.get? name with
    | none => rfl
    | some s =>
      cases s with
      | ambient color => exact absurd (only name color found) other
      | _ => rfl
  rw [← ambientLight_only]
  cases color? with
  | none =>
    have empty : t.filterMap ambientOnly? = NameMap.empty := by
      refine NameMap.ext fun name => ?_
      rw [NameMap.get?_filterMap, NameMap.get?_empty]
      by_cases here : name = SymbolTable.ambientName
      · rw [here, bound]
        rfl
      · exact elsewhere name here
    rw [empty]
    rfl
  | some color =>
    have single : t.filterMap ambientOnly? =
        NameMap.empty.insert SymbolTable.ambientName (.ambient color) := by
      refine NameMap.ext fun name => ?_
      rw [NameMap.get?_filterMap, NameMap.get?_insert, NameMap.get?_empty]
      by_cases here : name = SymbolTable.ambientName
      · rw [here, bound, if_pos rfl]
        rfl
      · rw [if_neg (Ne.symm here)]
        exact elsewhere name here
    rw [single]
    rfl

/-! ### Statements that make no difference -/

/-- A statement as far as the table can depend on it: without references to materials, and not at all
if it is only about knob lists, the name of the output or the number of frames. -/
def bare? : Statement → Option Statement
  | .command (.saveKnobs _) | .command (.tween ..) | .command (.basename _)
  | .command (.frames _) => none
  | .command (.line _ start startSystem stop stopSystem) =>
    some (.command (.line none start startSystem stop stopSystem))
  | .command (.solid shape _ system) => some (.command (.solid shape none system))
  | s => some s

theorem binding?_bare {before' : List Statement}
    (lights : unnamedLights before' = unnamedLights before) :
    (bare? s).bind (binding? before') = binding? before s := by
  rcases s with c | ⟨_ | _, _, _⟩ | _ | _
  case command => cases c <;> rfl
  case light.none =>
    show some (lightName (unnamedLights before' + 1), _) = _
    rw [lights]
    rfl
  all_goals rfl

theorem unnamedLights_bare (stated : List Statement) :
    unnamedLights (stated.filterMap bare?) = unnamedLights stated := by
  rw [unnamedLights, unnamedLights, List.countP_filterMap]
  refine congrArg (List.countP · stated) (funext fun s => ?_)
  cases s with
  | command c => cases c <;> rfl
  | _ => rfl

theorem latest_bare (stated : List Statement) :
    Latest (Binds name) (stated.filterMap bare?) symbol ↔ Latest (Binds name) stated symbol := by
  induction stated using List.reverseRecOn with
  | nil => rfl
  | append_singleton stated s ih =>
    have same := binding?_bare (s := s) (unnamedLights_bare stated)
    rw [List.filterMap_append, latest_concat]
    cases kept : bare? s with
    | none =>
      rw [kept, Option.bind_none] at same
      rw [List.filterMap_cons_none kept, List.filterMap_nil, List.append_nil, ih]
      simp [Binds, ← same]
    | some s' =>
      rw [kept, Option.bind_some] at same
      rw [List.filterMap_cons_some kept, List.filterMap_nil, latest_concat, ih]
      simp only [Binds, same]

/-! ### The table -/

section

variable (parsed : (ofSource origin source).outcome = .ok scene)
include parsed

/-- The word that stands for the ambient light is a keyword, so it cannot be a name. -/
theorem ambientKept : AmbientKept (statements origin source) := by
  intro i s here symbol gives
  have read := statementsOf?_of_ofSource parsed
  obtain ⟨tokens, lexed, read⟩ := statementsOf?_eq_some_iff.mp read
  obtain ⟨segments, splits, same⟩ := statements?_eq_some_iff.mp read
  have member := List.mem_of_getElem? here
  rw [← same] at member
  obtain ⟨k, values, rfl, named⟩ := splits.stated member
  rcases mem_argumentNames gives with among | ⟨n, number⟩
  · obtain ⟨token, inside, named⟩ := named _ among
    exact not_named_of_keyword (k := .ambient) lexed inside (by decide) (by decide) named
  · exact lightName_ne_ambient n number

theorem get?_of_ne (other : name ≠ SymbolTable.ambientName) :
    scene.symbols.get? name = some symbol ↔
      Latest (Gives name) (statements origin source) symbol := by
  have binds : Binds name = Gives name := by
    funext before s symbol
    rw [binds_iff, propext (or_iff_left _)]
    rintro ⟨color, -, same, -⟩
    exact other same
  rw [get?_ofSource parsed, binds]

theorem get?_eq_none_iff (other : name ≠ SymbolTable.ambientName) :
    scene.symbols.get? name = none ↔ ∀ i s symbol, (statements origin source)[i]? = some s →
      ¬ Gives name ((statements origin source).take i) s symbol := by
  constructor
  · intro free i s symbol here gives
    obtain ⟨found, latest⟩ := exists_latest_iff.mpr ⟨i, s, symbol, here, gives⟩
    rw [← get?_of_ne parsed other, free] at latest
    cases latest
  · intro nothing
    cases found : scene.symbols.get? name with
    | none => rfl
    | some symbol =>
      obtain ⟨i, s, here, gives, _⟩ := (get?_of_ne parsed other).mp found
      exact absurd gives (nothing i s symbol here)

theorem get?_ambient : scene.symbols.get? SymbolTable.ambientName =
    (lastAmbient? (statements origin source)).map .ambient := by
  refine Option.ext fun symbol => ?_
  rw [get?_ofSource parsed, latest_ambient_iff (ambientKept parsed)]

theorem ambientName_of_bound {color : Vec3 Float32}
    (bound : scene.symbols.get? name = some (.ambient color)) : name = SymbolTable.ambientName := by
  by_contra other
  obtain ⟨i, s, _, gives, _⟩ := (get?_of_ne parsed other).mp bound
  cases gives

theorem symbols_of_bare {origin' source' : String} {scene' : Scene}
    (parsed' : (ofSource origin' source').outcome = .ok scene')
    (same : (statements origin' source').filterMap bare? =
      (statements origin source).filterMap bare?) :
    scene'.symbols = scene.symbols := by
  refine NameMap.ext fun name => Option.ext fun symbol => ?_
  rw [get?_ofSource parsed, get?_ofSource parsed', ← latest_bare, same, latest_bare]

end

end Flipbook.Scene

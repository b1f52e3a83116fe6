import Flipbook.Error
import Flipbook.Lighting
import Flipbook.NameMap

/-!
# Symbols

The names of a scene: materials, lights, the ambient light and knobs, all in one table. A
definition replaces whatever its name stood for. A knob is only declared under a name that is free
or already a knob.
-/

namespace Flipbook

/-- What a name stands for. -/
inductive Symbol
  | material (m : Material Float32)
  | light (color position : Vec3 Float32)
  | knob (value : Float32)
  | ambient (color : Vec3 Float32)
  deriving DecidableEq

abbrev KnobValues := NameMap Float32

abbrev SymbolTable := NameMap Symbol

def Symbol.knob? : Symbol → Option Float32
  | knob value => some value
  | _ => none

@[simp] theorem Symbol.knob?_eq_some {s : Symbol} {value : Float32} :
    s.knob? = some value ↔ s = .knob value := by
  cases s <;> simp [knob?]

/-- The symbol if it shines: a light or the ambient light. -/
def Symbol.shining? : Symbol → Option Symbol
  | light color position => some (light color position)
  | ambient color => some (ambient color)
  | _ => none

/-- The symbol with its value replaced if it is a knob. -/
def Symbol.turnTo (value : Float32) : Symbol → Symbol
  | knob _ => knob value
  | other => other

theorem Symbol.turnTo_of_no_knob {s : Symbol} (defined : s.knob? = none) (value : Float32) :
    s.turnTo value = s := by
  cases s with
  | knob => cases defined
  | _ => rfl

/-- Whether two symbols are equal as their numbers compare: the two zeros are equal, and NaN differs
from itself. -/
def Symbol.agrees : Symbol → Symbol → Bool
  | material m, material n =>
    m.ambient.agrees n.ambient && m.diffuse.agrees n.diffuse && m.specular.agrees n.specular
  | light color position, light color' position' =>
    color.agrees color' && position.agrees position'
  | knob value, knob value' => value == value'
  | ambient color, ambient color' => color.agrees color'
  | _, _ => false

namespace SymbolTable

/-- The name under which the ambient light is kept. -/
def ambientName : String := "ambient"

def defineMaterial (t : SymbolTable) (name : String) (m : Material Float32) : SymbolTable :=
  t.insert name (.material m)

def defineLight (t : SymbolTable) (name : String) (color position : Vec3 Float32) : SymbolTable :=
  t.insert name (.light color position)

def setAmbient (t : SymbolTable) (color : Vec3 Float32) : SymbolTable :=
  t.insert ambientName (.ambient color)

/-- Declares a knob, which stands at 0 until it is turned. -/
def declareKnob (t : SymbolTable) (name : String) : Except Error SymbolTable :=
  match t.get? name with
  | none => .ok (t.insert name (.knob 0))
  | some (.knob _) => .ok t
  | some _ => .error (.notAKnob name)

def setKnob (t : SymbolTable) (name : String) (value : Float32) : SymbolTable :=
  t.insert name (.knob value)

def setAllKnobs (t : SymbolTable) (value : Float32) : SymbolTable :=
  t.map (Symbol.turnTo value)

def applyKnobs (t : SymbolTable) (knobs : KnobValues) : SymbolTable :=
  t.overlay (knobs.map .knob)

def knobValues (t : SymbolTable) : KnobValues :=
  t.filterMap Symbol.knob?

def knob (t : SymbolTable) (name : String) : Except Error Float32 :=
  match t.get? name with
  | some (.knob value) => .ok value
  | some _ => .error (.notAKnob name)
  | none => .error (.undefinedSymbol name)

/-- The material of a name. Without a name it is the standard one. -/
def material (t : SymbolTable) : Option String → Except Error (Material Float32)
  | none => .ok .standard
  | some name =>
    match t.get? name with
    | some (.material m) => .ok m
    | some _ => .error (.notAMaterial name)
    | none => .error (.undefinedSymbol name)

/-- The last ambient light in the order of the names, or the standard one. -/
def ambientLight (t : SymbolTable) : Vec3 Float32 :=
  t.values.foldl (fun found s => match s with | .ambient color => color | _ => found)
    Lighting.standardAmbient

/-- The lights in the order of their names. -/
def pointLights (t : SymbolTable) : List (PointLight Float32) :=
  t.values.filterMap fun s => match s with
    | .light color position => some (.at color position)
    | _ => none

/-- The light of the scene. A scene without a light has the standard one. -/
def lighting (t : SymbolTable) : Lighting Float32 where
  ambient := t.ambientLight
  lights := if t.pointLights.isEmpty then [.standard] else t.pointLights

/-- Whether two tables have the same names, and symbols that are equal as their numbers compare. -/
def agrees (t u : SymbolTable) : Bool :=
  t.names = u.names && (t.values.zip u.values).all fun (a, b) => a.agrees b

/-! ### The view by name -/

theorem get?_setAllKnobs (t : SymbolTable) (value : Float32) (name : String) :
    (setAllKnobs t value).get? name = (t.get? name).map (Symbol.turnTo value) :=
  NameMap.get?_map _ t name

theorem get?_applyKnobs (t : SymbolTable) (knobs : KnobValues) (name : String) :
    (applyKnobs t knobs).get? name = ((knobs.get? name).map .knob).or (t.get? name) := by
  rw [applyKnobs, NameMap.get?_overlay, NameMap.get?_map]

theorem get?_knobValues (t : SymbolTable) (name : String) :
    (knobValues t).get? name = (t.get? name).bind Symbol.knob? :=
  NameMap.get?_filterMap _ t name

theorem knobValues_setKnob (t : SymbolTable) (name : String) (value : Float32) :
    knobValues (setKnob t name value) = (knobValues t).insert name value := by
  refine NameMap.ext fun other => ?_
  rw [get?_knobValues, setKnob, NameMap.get?_insert, NameMap.get?_insert, get?_knobValues]
  split <;> rfl

theorem knobValues_setAllKnobs (t : SymbolTable) (value : Float32) :
    knobValues (setAllKnobs t value) = (knobValues t).map fun _ => value := by
  refine NameMap.ext fun name => ?_
  rw [get?_knobValues, get?_setAllKnobs, NameMap.get?_map, get?_knobValues]
  rcases t.get? name with _ | s
  · rfl
  · cases s <;> rfl

theorem knobValues_applyKnobs (t : SymbolTable) (knobs : KnobValues) :
    knobValues (applyKnobs t knobs) = (knobValues t).overlay knobs := by
  refine NameMap.ext fun name => ?_
  rw [get?_knobValues, get?_applyKnobs, NameMap.get?_overlay, get?_knobValues]
  cases knobs.get? name <;> rfl

/-! ### Failing to look up -/

theorem knob_eq_ok {t : SymbolTable} {name : String} {value : Float32} :
    knob t name = .ok value ↔ t.get? name = some (.knob value) := by
  rw [knob]
  split <;> simp_all

theorem knob_eq_error {t : SymbolTable} {name : String} {e : Error} :
    knob t name = .error e ↔ t.get? name = none ∧ e = .undefinedSymbol name ∨
      ∃ symbol, t.get? name = some symbol ∧ symbol.knob? = none ∧ e = .notAKnob name := by
  rw [knob]
  cases t.get? name with
  | none => simp [eq_comm]
  | some symbol => cases symbol <;> simp [Symbol.knob?, eq_comm]

theorem material_eq_error {t : SymbolTable} {reference : Option String} {e : Error} :
    material t reference = .error e ↔ ∃ name, reference = some name ∧
      (t.get? name = none ∧ e = .undefinedSymbol name ∨
        ∃ symbol, t.get? name = some symbol ∧ (∀ m, symbol ≠ .material m) ∧
          e = .notAMaterial name) := by
  cases reference with
  | none => simp [material]
  | some name =>
    simp only [material, Option.some.injEq, exists_eq_left']
    cases t.get? name with
    | none => simp [eq_comm]
    | some symbol => cases symbol <;> simp [eq_comm]

/-! ### The light of a table -/

theorem ambientLight_shining (t : SymbolTable) :
    ambientLight (t.filterMap Symbol.shining?) = ambientLight t := by
  rw [ambientLight, ambientLight, NameMap.values_filterMap]
  generalize Lighting.standardAmbient = found
  induction t.values generalizing found with
  | nil => rfl
  | cons s rest ih => cases s <;> exact ih _

theorem pointLights_shining (t : SymbolTable) :
    pointLights (t.filterMap Symbol.shining?) = pointLights t := by
  rw [pointLights, pointLights, NameMap.values_filterMap, List.filterMap_filterMap]
  refine congrArg (List.filterMap · t.values) (funext fun s => ?_)
  cases s <;> rfl

/-- Only what shines makes the light. -/
theorem lighting_congr {t u : SymbolTable}
    (same : ∀ name, (t.get? name).bind Symbol.shining? = (u.get? name).bind Symbol.shining?) :
    lighting t = lighting u := by
  have shining : t.filterMap Symbol.shining? = u.filterMap Symbol.shining? := by
    refine NameMap.ext fun name => ?_
    rw [NameMap.get?_filterMap, NameMap.get?_filterMap, same]
  rw [lighting, lighting, ← ambientLight_shining t, ← pointLights_shining t, shining,
    ambientLight_shining, pointLights_shining]

end SymbolTable

end Flipbook

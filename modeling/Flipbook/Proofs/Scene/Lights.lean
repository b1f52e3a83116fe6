import Flipbook.Proofs.Scene.Table
import Mathlib.Data.Finset.Card

/-!
# The lights of a scene

Lights without a name are given the names `light_1`, `light_2` and so on, which a script may use for
lights of its own. Lights that share a name are one light for the scene, the later one; no other light
is lost unless a material takes its name (`lights_of_definitions`, `numbered_light_lost`).
-/

namespace Flipbook

/-- The light that a symbol is. -/
def Symbol.light? : Symbol → Option (PointLight Float32)
  | .light color position => some (.at color position)
  | _ => none

theorem NameMap.mem_names_ofList {β : Type} {entries : List (String × β)} {name : String} :
    name ∈ (ofList entries).names ↔ name ∈ entries.map Prod.fst := by
  induction entries using List.reverseRecOn with
  | nil => rfl
  | append_singleton entries e ih =>
    rw [mem_names] at ih
    rw [ofList_concat, mem_names, get?_insert]
    by_cases same : e.1 = name
    · simp [same]
    · simp [same, ih, Ne.symm same]

theorem NameMap.get?_ofList_eq_none {β : Type} {entries : List (String × β)} {name : String} :
    (ofList entries).get? name = none ↔ name ∉ entries.map Prod.fst := by
  rw [← mem_names_ofList, mem_names, Option.not_isSome_iff_eq_none]

theorem NameMap.values_ofList_ne_nil {β : Type} {entries : List (String × β)}
    (filled : entries ≠ []) : (ofList entries).values ≠ [] := by
  obtain ⟨e, rest, rfl⟩ := List.exists_cons_of_ne_nil filled
  have named : e.1 ∈ (ofList (e :: rest)).names := mem_names_ofList.mpr List.mem_cons_self
  obtain ⟨entry, member, _⟩ := List.mem_map.mp named
  exact List.ne_nil_of_mem (List.mem_map_of_mem member)

theorem SymbolTable.pointLights_eq (t : SymbolTable) :
    pointLights t = (t.filterMap Symbol.light?).values := by
  rw [pointLights, NameMap.values_filterMap]
  refine congrArg (List.filterMap · t.values) (funext fun s => ?_)
  cases s <;> rfl

namespace Scene

open Script InOrder

variable {origin source : String} {scene : Scene} {stated : List Statement} {s : Statement}
variable {name : String} {symbol : Symbol} {light : PointLight Float32}

/-! ### The last definition of a name -/

/-- A statement defines a name as a symbol. To use it as a knob is no definition. -/
def DefinesAs (name : String) (before : List Statement) (s : Statement) (symbol : Symbol) : Prop :=
  Binds name before s symbol ∧ symbol.knob? = none

/-- A name that is defined stands for its last definition, as no later statement may use it as a
knob. -/
theorem latest_definesAs_iff (fit : KnobsFit stated) (defined : symbol.knob? = none) :
    Latest (Binds name) stated symbol ↔ Latest (DefinesAs name) stated symbol := by
  induction stated using List.reverseRecOn with
  | nil => exact iff_of_false latest_nil latest_nil
  | append_singleton stated s ih =>
    obtain ⟨fit, fits⟩ := always_concat.mp fit
    rw [latest_concat, latest_concat, ← ih fit]
    constructor
    · rintro (here | ⟨noLater, early⟩)
      · exact .inl ⟨here, defined⟩
      · exact .inr ⟨fun other defines => noLater other defines.1, early⟩
    · rintro (here | ⟨noLater, early⟩)
      · exact .inl here.1
      · refine .inr ⟨fun other binds => ?_, early⟩
        cases knob : other.knob? with
        | none => exact noLater other ⟨binds, knob⟩
        | some value =>
          have used := usedKnob?_of_binds binds (by rw [knob]; rfl)
          have refused := fits name used symbol early
          rw [defined] at refused
          cases refused

/-- The name stands for a light, by the last definition of it. -/
def Shines (name : String) (stated : List Statement) (light : PointLight Float32) : Prop :=
  ∃ symbol, Latest (DefinesAs name) stated symbol ∧ symbol.light? = some light

theorem get?_lights (parsed : (ofSource origin source).outcome = .ok scene) :
    (scene.symbols.filterMap Symbol.light?).get? name = some light ↔
      Shines name (statements origin source) light := by
  have fit : KnobsFit (statements origin source) := by
    obtain ⟨stated, read, fit⟩ := ofSource_ok_iff.mp ⟨scene, parsed⟩
    rw [statementsOf?_of_ofSource parsed] at read
    cases read
    exact fit
  rw [NameMap.get?_filterMap, Option.bind_eq_some_iff]
  refine exists_congr fun symbol => ?_
  rw [get?_ofSource parsed]
  refine and_congr_left fun shines => latest_definesAs_iff fit ?_
  cases symbol with
  | light => rfl
  | _ => cases shines

theorem not_shines_nil : ¬ Shines name [] light := by
  rintro ⟨symbol, latest, _⟩
  exact latest_nil latest

/-- A definition decides about its own name only. -/
theorem shines_concat {key : String} (binds : binding? stated s = some (key, symbol))
    (defined : symbol.knob? = none) :
    Shines name (stated ++ [s]) light ↔
      if key = name then symbol.light? = some light else Shines name stated light := by
  have defines (name : String) (other : Symbol) :
      DefinesAs name stated s other ↔ key = name ∧ symbol = other := by
    rw [DefinesAs, Binds, binds]
    constructor
    · rintro ⟨same, -⟩
      cases same
      exact ⟨rfl, rfl⟩
    · rintro ⟨rfl, rfl⟩
      exact ⟨rfl, defined⟩
  simp only [Shines, latest_concat, defines]
  by_cases same : key = name <;> simp [same]

theorem shines_concat_of_command {c : Command} :
    Shines name (stated ++ [.command c]) light ↔ Shines name stated light := by
  have nothing (other : Symbol) : ¬ DefinesAs name stated (.command c) other := by
    rintro ⟨binds, defined⟩
    obtain ⟨knob, -, same⟩ := Option.map_eq_some_iff.mp binds
    cases same
    cases defined
  simp [Shines, latest_concat, nothing]

/-! ### The lights and their names -/

theorem lightName_injective : Function.Injective lightName := by
  have written (n : Nat) : (lightName n).toList = "light_".toList ++ Nat.toDigits 10 n := by
    simp [lightName, toString, Nat.repr]
  intro m n same
  have digits := congrArg String.toList same
  rw [written, written, List.append_cancel_left_eq] at digits
  rw [← Nat.ofDigitChars_toDigits (b := 10) (n := m) (by decide) (by decide), digits,
    Nat.ofDigitChars_toDigits (by decide) (by decide)]

/-- The light of a statement that says its name. -/
def namedLight? : Statement → Option (String × PointLight Float32)
  | .light (some name) color position => some (name, .at color position)
  | _ => none

/-- The light of a statement without a name. -/
def unnamedLight? : Statement → Option (PointLight Float32)
  | .light none color position => some (.at color position)
  | _ => none

/-- The lights whose statements say their names. -/
def namedLights (stated : List Statement) : List (String × PointLight Float32) :=
  stated.filterMap namedLight?

/-- The lights whose statements do not, with the names that they are given. -/
def givenLights (stated : List Statement) : List (String × PointLight Float32) :=
  (stated.filterMap unnamedLight?).mapIdx fun i light => (lightName (i + 1), light)

/-- The lights of statements behind `n` unnamed ones, each with the name that it is filed under. -/
def filedFrom : Nat → List Statement → List (String × PointLight Float32)
  | _, [] => []
  | n, .light (some name) color position :: rest => (name, .at color position) :: filedFrom n rest
  | n, .light none color position :: rest =>
    (lightName (n + 1), .at color position) :: filedFrom (n + 1) rest
  | n, .command _ :: rest | n, .ambient _ :: rest | n, .material _ _ :: rest => filedFrom n rest

/-- All lights in the order of their statements, each with the name that it is filed under. -/
def filedLights (stated : List Statement) : List (String × PointLight Float32) :=
  filedFrom 0 stated

theorem filedFrom_append (n : Nat) (before later : List Statement) :
    filedFrom n (before ++ later) =
      filedFrom n before ++ filedFrom (n + unnamedLights before) later := by
  induction before generalizing n with
  | nil => rfl
  | cons s rest ih =>
    rcases s with c | ⟨_ | _, _, _⟩ | _ | _
    all_goals
      simp [filedFrom, ih, unnamedLights, List.countP_cons, isUnnamedLight, Nat.add_assoc,
        Nat.add_comm 1]

theorem filedLights_concat (stated : List Statement) (s : Statement) :
    filedLights (stated ++ [s]) = filedLights stated ++ filedFrom (unnamedLights stated) [s] := by
  rw [filedLights, filedFrom_append, Nat.zero_add, filedLights]

theorem filedLights_ne_nil {name? : Option String} {color position : Vec3 Float32}
    (given : .light name? color position ∈ stated) : filedLights stated ≠ [] := by
  obtain ⟨before, later, rfl⟩ := List.append_of_mem given
  rw [filedLights, filedFrom_append]
  cases name? <;> simp [filedFrom]

theorem namedLights_concat (stated : List Statement) (s : Statement) :
    namedLights (stated ++ [s]) = namedLights stated ++ (namedLight? s).toList := by
  rw [namedLights, List.filterMap_append, namedLights]
  cases named : namedLight? s <;> simp [named]

theorem length_unnamed (stated : List Statement) :
    (stated.filterMap unnamedLight?).length = unnamedLights stated := by
  rw [List.length_filterMap_eq_countP, unnamedLights]
  refine congrArg (List.countP · stated) (funext fun s => ?_)
  rcases s with c | ⟨_ | _, _, _⟩ | _ | _ <;> rfl

theorem givenLights_concat (stated : List Statement) (s : Statement) :
    givenLights (stated ++ [s]) = givenLights stated ++
      (unnamedLight? s).toList.map (lightName (unnamedLights stated + 1), ·) := by
  rw [givenLights, List.filterMap_append, ← length_unnamed, givenLights]
  cases given : unnamedLight? s <;> simp [given]

theorem concat_named (stated : List Statement) (key : String) (color position : Vec3 Float32) :
    let more := stated ++ [.light (some key) color position]
    filedLights more = filedLights stated ++ [(key, .at color position)] ∧
      namedLights more = namedLights stated ++ [(key, .at color position)] ∧
      givenLights more = givenLights stated := by
  refine ⟨filedLights_concat .., namedLights_concat .., ?_⟩
  rw [givenLights_concat]
  exact List.append_nil _

theorem concat_unnamed (stated : List Statement) (color position : Vec3 Float32) :
    let more := stated ++ [.light none color position]
    let name := lightName (unnamedLights stated + 1)
    filedLights more = filedLights stated ++ [(name, .at color position)] ∧
      namedLights more = namedLights stated ∧
      givenLights more = givenLights stated ++ [(name, .at color position)] := by
  refine ⟨filedLights_concat .., ?_, givenLights_concat ..⟩
  rw [namedLights_concat]
  exact List.append_nil _

theorem concat_other (stated : List Statement) (s : Statement) (named : namedLight? s = none)
    (unnamed : unnamedLight? s = none) :
    filedLights (stated ++ [s]) = filedLights stated ∧
      namedLights (stated ++ [s]) = namedLights stated ∧
      givenLights (stated ++ [s]) = givenLights stated := by
  rw [filedLights_concat, namedLights_concat, givenLights_concat, named, unnamed]
  refine ⟨?_, List.append_nil _, List.append_nil _⟩
  rcases s with c | ⟨_ | _, _, _⟩ | _ | _
  case light.none => cases unnamed
  case light.some => cases named
  all_goals exact List.append_nil _

/-- Every light is filed under the name its statement says or under the one it is given. -/
theorem filedLights_perm (stated : List Statement) :
    (filedLights stated).Perm (namedLights stated ++ givenLights stated) := by
  induction stated using List.reverseRecOn with
  | nil => exact .nil
  | append_singleton stated s ih =>
    have other := concat_other stated s
    rcases s with c | ⟨_ | key, color, position⟩ | color | ⟨key, m⟩
    case light.none =>
      obtain ⟨filed, said, given⟩ := concat_unnamed stated color position
      rw [filed, said, given, ← List.append_assoc]
      exact ih.append_right _
    case light.some =>
      obtain ⟨filed, said, given⟩ := concat_named stated key color position
      rw [filed, said, given, List.append_assoc]
      have moved := List.perm_append_singleton (key, PointLight.at color position) (givenLights stated)
      refine (ih.append_right _).trans ?_
      rw [List.append_assoc]
      exact moved.append_left (namedLights stated)
    all_goals
      obtain ⟨filed, said, given⟩ := other rfl rfl
      rwa [filed, said, given]

theorem map_givenLights (stated : List Statement) : (givenLights stated).map Prod.fst =
    (List.range (unnamedLights stated)).map fun i => lightName (i + 1) := by
  refine List.ext_getElem ?_ fun i _ _ => ?_
  · simp [givenLights, length_unnamed]
  · simp [givenLights]

theorem nodup_given (stated : List Statement) : ((givenLights stated).map Prod.fst).Nodup := by
  rw [map_givenLights]
  exact List.nodup_range.map (lightName_injective.comp (Nat.succ_injective))

/-- The next number is free among the names that were given. -/
theorem next_not_given (stated : List Statement) :
    lightName (unnamedLights stated + 1) ∉ (givenLights stated).map Prod.fst := by
  rw [map_givenLights, List.mem_map]
  rintro ⟨i, within, same⟩
  have number := lightName_injective same
  have below := List.mem_range.mp within
  omega

/-! ### The lights of the table -/

/-- The name that a statement defines as something other than a light. -/
def otherName? : Statement → Option String
  | .ambient _ => some SymbolTable.ambientName
  | .material name _ => some name
  | _ => none

/-- No name of a light is defined as something else. -/
def LightsApart (stated : List Statement) : Prop :=
  ∀ s ∈ stated, ∀ name, otherName? s = some name → name ∉ (filedLights stated).map Prod.fst

theorem LightsApart.of_concat (apart : LightsApart (stated ++ [s])) : LightsApart stated := by
  intro other member name defines filed
  refine apart other (List.mem_append_left _ member) name defines ?_
  rw [filedLights_concat, List.map_append]
  exact List.mem_append_left _ filed

theorem LightsApart.not_filed {key : String} (apart : LightsApart (stated ++ [s]))
    (other : otherName? s = some key) : key ∉ (filedLights stated).map Prod.fst := by
  intro filed
  refine apart s (by simp) key other ?_
  rw [filedLights_concat, List.map_append]
  exact List.mem_append_left _ filed

/-- Light by light, the table holds the last one that is filed under a name. -/
theorem shines_iff (apart : LightsApart stated) :
    Shines name stated light ↔ (NameMap.ofList (filedLights stated)).get? name = some light := by
  induction stated using List.reverseRecOn with
  | nil => exact iff_of_false not_shines_nil (by simp [filedLights, filedFrom, NameMap.ofList])
  | append_singleton stated s ih =>
    have ih := ih apart.of_concat
    rcases s with c | ⟨_ | key, color, position⟩ | color | ⟨key, m⟩
    case command => simpa [shines_concat_of_command, filedLights_concat, filedFrom] using ih
    case light.none | light.some =>
      rw [shines_concat rfl rfl, ih, filedLights_concat, filedFrom, filedFrom, NameMap.ofList_concat,
        NameMap.get?_insert]
      split <;> simp [Symbol.light?]
    case ambient | material =>
      have free := apart.not_filed rfl
      rw [shines_concat rfl rfl, ih, filedLights_concat, filedFrom, filedFrom, List.append_nil]
      split
      · next here => simp [← here, NameMap.get?_ofList_eq_none.mpr free, Symbol.light?]
      · rfl

/-- A word that is a keyword is no name of a light. -/
theorem ambient_not_filed (kept : AmbientKept stated) :
    SymbolTable.ambientName ∉ (filedLights stated).map Prod.fst := by
  induction stated using List.reverseRecOn with
  | nil => simp [filedLights, filedFrom]
  | append_singleton stated s ih =>
    obtain ⟨kept, last⟩ := always_concat.mp kept
    rw [filedLights_concat, List.map_append, List.mem_append]
    rintro (before | here)
    · exact ih kept before
    · rcases s with c | ⟨_ | key, color, position⟩ | color | ⟨key, m⟩
      case light.none => exact lightName_ne_ambient _ (List.mem_singleton.mp here).symm
      case light.some =>
        rw [show key = SymbolTable.ambientName from (List.mem_singleton.mp here).symm] at last
        exact last _ (.light color position)
      all_goals cases here

theorem LightsApart.of_kept (kept : AmbientKept stated)
    (apart : ∀ name m, Statement.material name m ∈ stated →
      name ∉ (filedLights stated).map Prod.fst) : LightsApart stated := by
  intro s member name defines
  rcases s with c | ⟨_ | _, _, _⟩ | color | ⟨key, m⟩
  case ambient =>
    cases defines
    exact ambient_not_filed kept
  case material =>
    cases defines
    exact apart name m member
  all_goals cases defines

theorem lights_table (parsed : (ofSource origin source).outcome = .ok scene)
    (apart : LightsApart (statements origin source)) :
    scene.symbols.filterMap Symbol.light? =
      NameMap.ofList (filedLights (statements origin source)) := by
  refine NameMap.ext fun name => Option.ext fun light => ?_
  rw [get?_lights parsed, shines_iff apart]

/-! ### How many lights there are -/

/-- The names that statements say and that are also given. -/
def sharedNames (stated : List Statement) : List String :=
  (NameMap.ofList (namedLights stated)).names.filter (· ∈ (givenLights stated).map Prod.fst)

/-- A name that is said and also given takes one light away. -/
theorem length_filed (stated : List Statement) :
    (NameMap.ofList (filedLights stated)).names.length + (sharedNames stated).length =
      (NameMap.ofList (namedLights stated)).names.length + (givenLights stated).length := by
  have count (m : NameMap (PointLight Float32)) : m.names.length = m.names.toFinset.card :=
    (List.toFinset_card_of_nodup m.nodup_names).symm
  let said := (NameMap.ofList (namedLights stated)).names
  let given := (givenLights stated).map Prod.fst
  have union : (NameMap.ofList (filedLights stated)).names.toFinset =
      said.toFinset ∪ given.toFinset := by
    ext name
    simp only [said, given, Finset.mem_union, List.mem_toFinset, NameMap.mem_names_ofList]
    rw [((filedLights_perm stated).map Prod.fst).mem_iff, List.map_append, List.mem_append]
  have both : (sharedNames stated).length = (said.toFinset ∩ given.toFinset).card := by
    have nodup : (sharedNames stated).Nodup := (NameMap.nodup_names _).filter _
    rw [← List.toFinset_card_of_nodup nodup]
    congr 1
    ext name
    simp [sharedNames, said, given]
  have each : (givenLights stated).length = given.toFinset.card := by
    rw [List.toFinset_card_of_nodup (nodup_given stated), List.length_map]
  rw [count, union, both, Finset.card_union_add_card_inter, ← count, each]

/-- No light says a name that another is given. -/
def NamesApart (stated : List Statement) : Prop :=
  ∀ name ∈ (namedLights stated).map Prod.fst, name ∉ (givenLights stated).map Prod.fst

theorem NamesApart.of_concat (apart : NamesApart (stated ++ [s])) : NamesApart stated := by
  intro name said given
  refine apart name ?_ ?_
  · rw [namedLights_concat, List.map_append]
    exact List.mem_append_left _ said
  · rw [givenLights_concat, List.map_append]
    exact List.mem_append_left _ given

theorem get?_filed (apart : NamesApart stated) :
    (NameMap.ofList (filedLights stated)).get? name = some light ↔
      (NameMap.ofList (namedLights stated)).get? name = some light ∨
        (name, light) ∈ givenLights stated := by
  induction stated using List.reverseRecOn with
  | nil => simp [filedLights, filedFrom, namedLights, givenLights, NameMap.ofList]
  | append_singleton stated s ih =>
    have ih := ih apart.of_concat
    have other := concat_other stated s
    rcases s with c | ⟨_ | key, color, position⟩ | color | ⟨key, m⟩
    case light.none =>
      obtain ⟨filed, said, given⟩ := concat_unnamed stated color position
      rw [filed, said, given, NameMap.ofList_concat, NameMap.get?_insert]
      by_cases here : lightName (unnamedLights stated + 1) = name
      · subst here
        have unsaid : lightName (unnamedLights stated + 1) ∉ (namedLights stated).map Prod.fst :=
          fun member => apart _ (said ▸ member) (by simp [given])
        have fresh : (lightName (unnamedLights stated + 1), light) ∉ givenLights stated :=
          fun member => next_not_given stated (List.mem_map_of_mem member)
        simp [NameMap.get?_ofList_eq_none.mpr unsaid, fresh, eq_comm]
      · simp [here, Ne.symm here, ih]
    case light.some =>
      obtain ⟨filed, said, given⟩ := concat_named stated key color position
      rw [filed, said, given, NameMap.ofList_concat, NameMap.ofList_concat, NameMap.get?_insert,
        NameMap.get?_insert]
      by_cases here : key = name
      · subst here
        have unmet : (key, light) ∉ givenLights stated := fun member =>
          apart key (by simp [said]) (given ▸ List.mem_map_of_mem member)
        simp [unmet]
      · simp [here, ih]
    all_goals
      obtain ⟨filed, said, given⟩ := other rfl rfl
      rwa [filed, said, given]

theorem filed_entries_perm (apart : NamesApart stated) :
    (NameMap.ofList (filedLights stated)).entries.Perm
      ((NameMap.ofList (namedLights stated)).entries ++ givenLights stated) := by
  have filed : (NameMap.ofList (filedLights stated)).entries.Nodup :=
    .of_map _ (NameMap.nodup_names _)
  have split : ((NameMap.ofList (namedLights stated)).entries ++ givenLights stated).Nodup := by
    refine .of_map Prod.fst ?_
    rw [List.map_append]
    refine (NameMap.nodup_names _).append (nodup_given stated) fun name said => ?_
    exact apart name (NameMap.mem_names_ofList.mp said)
  refine (List.perm_ext_iff_of_nodup filed split).mpr fun ⟨name, light⟩ => ?_
  rw [List.mem_append, NameMap.mem_entries, NameMap.mem_entries, get?_filed apart]

/-- A name stands for a light of the scene if its last definition is one. If no light takes the name
of a material, these are the lights filed under the names, of each name the last, and a name that is
said and also given takes one away. Without such a name there is one light for every name that is said,
the last with that name, and one for every light without a name. -/
theorem lights_of_definitions (parsed : (ofSource origin source).outcome = .ok scene) :
    let stated := statements origin source
    let table := scene.symbols.filterMap Symbol.light?
    let lights := (SymbolTable.lighting scene.symbols).lights
    let named := NameMap.ofList (namedLights stated)
    let unnamed := stated.filterMap unnamedLight?
    lights = (if table.values.isEmpty then [.standard] else table.values) ∧
      (∀ name light, table.get? name = some light ↔ Shines name stated light) ∧
      ((∃ name? color position, Statement.light name? color position ∈ stated) →
        (∀ name m, Statement.material name m ∈ stated →
          name ∉ (filedLights stated).map Prod.fst) →
        table = NameMap.ofList (filedLights stated) ∧
        lights.length + (sharedNames stated).length = named.names.length + unnamed.length ∧
        (sharedNames stated = [] → lights.Perm (named.values ++ unnamed))) := by
  intro stated table lights named unnamed
  have held : lights = if table.values.isEmpty then [.standard] else table.values := by
    rw [← SymbolTable.pointLights_eq]
    rfl
  refine ⟨held, fun name light => get?_lights parsed, ?_⟩
  rintro ⟨name?, color, position, given⟩ apart
  have filed : table = NameMap.ofList (filedLights stated) :=
    lights_table parsed (.of_kept (ambientKept parsed) apart)
  have shining := NameMap.values_ofList_ne_nil (filedLights_ne_nil given)
  rw [filed, if_neg (by simpa using shining)] at held
  have unnamed_eq : unnamed = (givenLights stated).map Prod.snd := by
    refine List.ext_getElem (by simp [givenLights, unnamed]) fun i _ _ => ?_
    simp [givenLights, unnamed]
  rw [held, unnamed_eq]
  refine ⟨filed, ?_, fun unshared => ?_⟩
  · rw [List.length_map, ← length_filed, NameMap.values, NameMap.names, List.length_map,
      List.length_map]
  · rw [NameMap.values, NameMap.values, ← List.map_append]
    refine (filed_entries_perm fun name said given => ?_).map Prod.snd
    have met := List.filter_eq_nil_iff.mp unshared name (NameMap.mem_names_ofList.mpr said)
    exact met (decide_eq_true given)

/-- A light that is defined again is one light, and a light without a name is another. -/
theorem renamed_light_and_unnamed_light :
    let source :=
      "constants m 0 0 0 0 0 0 0 0 0\nlight b 1 0 0 0 0 1\nlight 2 0 0 0 0 1\nlight b 3 0 0 0 0 1"
    ∃ scene, (ofSource "t.mdl" source).outcome = .ok scene ∧
      (SymbolTable.lighting scene.symbols).lights.Perm
        [.at ⟨3, 0, 0⟩ ⟨0, 0, 1⟩, .at ⟨2, 0, 0⟩ ⟨0, 0, 1⟩] := by
  intro source
  let dark : Material Float32 := ⟨⟨0, 0, 0⟩, ⟨0, 0, 0⟩, ⟨0, 0, 0⟩⟩
  let symbols : SymbolTable := .ofList [("m", .material dark),
    ("b", .light ⟨3, 0, 0⟩ ⟨0, 0, 1⟩), ("light_1", .light ⟨2, 0, 0⟩ ⟨0, 0, 1⟩)]
  have parsed : (ofSource "t.mdl" source).outcome = .ok ⟨[], symbols⟩ :=
    ofSource_eq (by decide +kernel)
  let lines : List Statement := [.material "m" dark, .light (some "b") ⟨1, 0, 0⟩ ⟨0, 0, 1⟩,
    .light none ⟨2, 0, 0⟩ ⟨0, 0, 1⟩, .light (some "b") ⟨3, 0, 0⟩ ⟨0, 0, 1⟩]
  have stated : statements "t.mdl" source = lines := by decide +kernel
  have apart : ∀ name m, Statement.material name m ∈ lines →
      name ∉ (filedLights lines).map Prod.fst := by
    intro name m member
    obtain ⟨rfl, rfl⟩ : name = "m" ∧ m = dark := by simpa [lines] using member
    decide +kernel
  have unshared : sharedNames lines = [] := by decide +kernel
  have said : (NameMap.ofList (namedLights lines)).values = [.at ⟨3, 0, 0⟩ ⟨0, 0, 1⟩] := by
    decide +kernel
  obtain ⟨-, -, all⟩ := lights_of_definitions parsed
  rw [stated] at all
  obtain ⟨-, -, lights⟩ := all ⟨none, ⟨2, 0, 0⟩, ⟨0, 0, 1⟩, by simp [lines]⟩ apart
  have lights := lights unshared
  rw [said] at lights
  exact ⟨_, parsed, lights⟩

/-- The second light is called `light_1`, so the first one is lost. -/
theorem numbered_light_lost :
    let source := "light light_1 255 0 0 0 0 1\nlight 0 255 0 0 0 1"
    let stated : List Statement :=
      [.light (some "light_1") ⟨255, 0, 0⟩ ⟨0, 0, 1⟩, .light none ⟨0, 255, 0⟩ ⟨0, 0, 1⟩]
    ∃ scene, (ofSource "t.mdl" source).outcome = .ok scene ∧ statements "t.mdl" source = stated ∧
      (SymbolTable.lighting scene.symbols).lights = [.at ⟨0, 255, 0⟩ ⟨0, 0, 1⟩] ∧
      (SymbolTable.lighting scene.symbols).lights.length ≠
        (NameMap.ofList (namedLights stated)).names.length +
          (stated.filterMap unnamedLight?).length := by
  intro source stated
  let symbols : SymbolTable := .ofList [("light_1", .light ⟨0, 255, 0⟩ ⟨0, 0, 1⟩)]
  have parsed : (ofSource "t.mdl" source).outcome = .ok ⟨[], symbols⟩ :=
    ofSource_eq (by decide +kernel)
  exact ⟨_, parsed, by decide +kernel, rfl, by decide⟩

end Scene

end Flipbook

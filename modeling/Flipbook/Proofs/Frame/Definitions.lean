import Flipbook.Proofs.Frame.Knobs

/-!
# Definitions during a frame

A definition is what a name stands for that is no knob: a material, a light or the ambient light.
Commands never change one, but a knob can take its name. `Overwritten` says when a frame has let it:
if the frame turns the name, from the start, and otherwise from the first `set` of the name on
(`definition_kept_iff`).
-/

namespace Flipbook.Frame

open SymbolTable (knobValues)

variable {setting : Setting} {s t : State} {commands : List Command} {symbols : SymbolTable}
variable {knobs : KnobValues} {i : Nat} {name : String} {symbol : Symbol}

/-- A knob has taken the name, in a frame that turns `knobs`, after these commands. -/
def Overwritten (knobs : KnobValues) (commands : List Command) (name : String) : Prop :=
  (knobs.get? name).isSome ∨ ∃ value, .set name value ∈ commands

theorem get?_table_of_free (free : knobs.get? name = none) :
    (table symbols knobs).get? name = symbols.get? name := by
  rw [table, SymbolTable.get?_applyKnobs, free]
  rfl

theorem retable_keeps {c : Command} (defined : symbol.knob? = none)
    (free : setting.knobs.get? name = none) (unset : ∀ value, c ≠ .set name value)
    (bound : symbols.get? name = some symbol) :
    (setting.retable symbols c).get? name = some symbol := by
  cases c with
  | set other value =>
    have differs : other ≠ name := fun same => unset value (same ▸ rfl)
    simp only [Setting.retable, Setting.set]
    split
    · exact bound
    · rw [SymbolTable.setKnob, NameMap.get?_insert, if_neg differs, bound]
  | setKnobs value =>
    rw [Setting.retable, Setting.setAll, SymbolTable.get?_applyKnobs, free,
      SymbolTable.get?_setAllKnobs, bound]
    exact congrArg some (Symbol.turnTo_of_no_knob defined value)
  | _ => exact bound

theorem foldl_retable_keeps (defined : symbol.knob? = none)
    (free : setting.knobs.get? name = none) (unset : ∀ value, .set name value ∉ commands)
    (bound : symbols.get? name = some symbol) :
    (commands.foldl setting.retable symbols).get? name = some symbol := by
  induction commands generalizing symbols with
  | nil => exact bound
  | cons c rest ih =>
    have first : ∀ value, c ≠ .set name value := fun value same =>
      unset value (same ▸ List.mem_cons_self)
    have later : ∀ value, .set name value ∉ rest := fun value here =>
      unset value (List.mem_cons_of_mem c here)
    exact ih later (retable_keeps defined free first bound)

theorem upTo_keeps (reached : (upTo commands symbols knobs i).outcome = .ok s)
    (defined : symbol.knob? = none) (bound : symbols.get? name = some symbol)
    (kept : ¬ Overwritten knobs (commands.take i) name) : s.symbols.get? name = some symbol := by
  obtain ⟨free, unset⟩ := not_or.mp kept
  have free : knobs.get? name = none := Option.not_isSome_iff_eq_none.mp free
  rw [executeAll_symbols reached]
  refine foldl_retable_keeps defined free (fun value here => unset ⟨value, here⟩) ?_
  exact (get?_table_of_free free).trans bound

theorem exists_knob_upTo_iff (reached : (upTo commands symbols knobs i).outcome = .ok s) :
    (∃ value, s.symbols.get? name = some (.knob value)) ↔
      (∃ value, symbols.get? name = some (.knob value)) ∨
        Overwritten knobs (commands.take i) name := by
  have knob_iff (t : SymbolTable) :
      (∃ value, t.get? name = some (.knob value)) ↔ ((knobValues t).get? name).isSome := by
    simp [SymbolTable.get?_knobValues, Option.isSome_iff_exists, Option.bind_eq_some_iff]
  rw [knob_iff, knob_iff, knobValues_upTo reached, NameMap.get?_overlay, Option.isSome_or,
    Bool.or_eq_true, Timeline.isSome_running, Overwritten]
  exact or_left_comm

/-- A definition stands at a point of a frame exactly if no knob has taken its name. -/
theorem definition_kept_iff (reached : (upTo commands symbols knobs i).outcome = .ok s)
    (defined : symbol.knob? = none) (bound : symbols.get? name = some symbol) :
    s.symbols.get? name = some symbol ↔ ¬ Overwritten knobs (commands.take i) name := by
  refine ⟨fun stands taken => ?_, upTo_keeps reached defined bound⟩
  obtain ⟨value, knob⟩ := (exists_knob_upTo_iff reached).mpr (.inr taken)
  rw [stands] at knob
  cases knob
  cases defined

theorem material_kept_iff (reached : (upTo commands symbols knobs i).outcome = .ok s)
    {reference : Option String} {m : Material Float32}
    (found : SymbolTable.material symbols reference = .ok m) :
    SymbolTable.material s.symbols reference = .ok m ↔
      ∀ name, reference = some name → ¬ Overwritten knobs (commands.take i) name := by
  have material_iff (t : SymbolTable) (name : String) :
      SymbolTable.material t (some name) = .ok m ↔ t.get? name = some (.material m) := by
    rw [SymbolTable.material]
    split <;> simp_all
  cases reference with
  | none => simp [SymbolTable.material, ← found]
  | some name =>
    rw [material_iff] at found
    rw [material_iff, definition_kept_iff reached rfl found]
    simp

/-! ### The light of a frame -/

/-- A frame that turns no light starts with the light of the scene. -/
theorem lighting_kept
    (dark : ∀ name symbol, symbols.get? name = some symbol → symbol.shining?.isSome →
      knobs.get? name = none) :
    SymbolTable.lighting (table symbols knobs) = SymbolTable.lighting symbols := by
  refine SymbolTable.lighting_congr fun name => ?_
  cases turned : knobs.get? name with
  | none => rw [get?_table_of_free turned]
  | some value =>
    rw [table, SymbolTable.get?_applyKnobs, turned]
    cases bound : symbols.get? name with
    | none => rfl
    | some symbol =>
      cases shines : symbol.shining? with
      | none => exact shines.symm
      | some _ =>
        have free := dark name symbol bound (Option.isSome_of_eq_some shines)
        rw [turned] at free
        cases free

/-- All polygons that a computation draws are lit by `lighting`. -/
def LitBy {α : Type} (lighting : Lighting Float32) (r : Replay α) : Prop :=
  ∀ points l m, .call (.polygons points l m) ∈ r.events → l = lighting

section

variable {α β : Type} {lighting : Lighting Float32}

theorem LitBy.of_nil {r : Replay α} (silent : r.events = []) : LitBy lighting r := by
  intro points l m here
  rw [silent] at here
  cases here

theorem LitBy.bind {r : Replay α} {next : α → Replay β} (first : LitBy lighting r)
    (later : ∀ a, LitBy lighting (next a)) : LitBy lighting (r >>= next) := by
  intro points l m here
  rcases Trace.mem_events_bind.mp here with here | ⟨a, _, here⟩
  · exact first points l m here
  · exact later a points l m here

theorem litBy_log (entry : LogEntry) : LitBy lighting (Replay.log entry) := by
  intro points l m here
  cases List.mem_singleton.mp here

theorem litBy_call {c : Call} (lit : ∀ points l m, c = .polygons points l m → l = lighting) :
    LitBy lighting (Replay.call c) := by
  intro points l m here
  exact lit points l m (Event.call.inj (List.mem_singleton.mp here)).symm

end

theorem execute_litBy (setting : Setting) (s : State) (c : Command) :
    LitBy setting.lighting (execute setting s c) := by
  cases c with
  | display | save => exact (litBy_call (by simp)).bind fun _ => .of_nil rfl
  | line => exact (litBy_call (by simp)).bind fun _ => .of_nil rfl
  | pop =>
    rw [execute]
    split <;> exact .of_nil rfl
  | transform => exact (LitBy.of_nil rfl).bind fun _ => .of_nil rfl
  | solid shape material system =>
    refine (LitBy.of_nil rfl).bind fun m => ?_
    have drawn : LitBy setting.lighting (do
        Replay.call (.polygons (s.place shape.points) setting.lighting m)
        return s) := by
      refine (litBy_call fun _ _ _ same => ?_).bind fun _ => .of_nil rfl
      cases same
      rfl
    cases system with
    | none => exact drawn
    | some name => exact (litBy_log _).bind fun _ => drawn
  | _ => exact .of_nil rfl

theorem executeAll_litBy (setting : Setting) (commands : List Command) (s : State) :
    LitBy setting.lighting (executeAll setting commands s) := by
  induction commands generalizing s with
  | nil => exact .of_nil rfl
  | cons c rest ih => exact (execute_litBy setting s c).bind ih

/-- A frame draws in one light, that of the table it starts with. -/
theorem replay_litBy (commands : List Command) (symbols : SymbolTable) (knobs : KnobValues) :
    LitBy (SymbolTable.lighting (table symbols knobs)) (replay commands symbols knobs) := by
  refine (litBy_call (by simp)).bind fun _ => (executeAll_litBy _ commands _).bind fun s => ?_
  split
  · exact litBy_log _
  · exact .of_nil rfl

end Flipbook.Frame

import Flipbook.Replay.Frame

/-!
# Points of a frame

`upTo` is the replay of a frame up to some command. Between two points only `set` and `setknobs`
change the table (`execute_symbols`).
-/

namespace Flipbook.Frame

variable {setting : Setting} {s t : State}

/-- The first `i` commands of a frame. -/
def upTo (commands : List Command) (symbols : SymbolTable) (knobs : KnobValues) (i : Nat) :
    Replay State :=
  executeAll (.of symbols knobs) (commands.take i) ⟨.start, table symbols knobs⟩

theorem executeAll_append (setting : Setting) (first last : List Command) (s : State) :
    executeAll setting (first ++ last) s =
      executeAll setting first s >>= executeAll setting last := by
  induction first generalizing s with
  | nil => simp [executeAll]
  | cons c rest ih => simp only [List.cons_append, executeAll, ih, bind_assoc]

/-- A frame goes on from each of its points. -/
theorem replay_eq_upTo (commands : List Command) (symbols : SymbolTable) (knobs : KnobValues)
    (i : Nat) :
    replay commands symbols knobs = (do
      Replay.call .clear
      let s ← upTo commands symbols knobs i
      let s ← executeAll (.of symbols knobs) (commands.drop i) s
      if 1 < s.stack.depth then Replay.log (.unmatchedPushes (s.stack.depth - 1))) := by
  have cut := executeAll_append (.of symbols knobs) (commands.take i) (commands.drop i)
  rw [List.take_append_drop] at cut
  simp only [replay, upTo, cut, bind_assoc]

/-- The table after a command. -/
def Setting.retable (setting : Setting) (symbols : SymbolTable) : Command → SymbolTable
  | .set knob value => setting.set symbols knob value
  | .setKnobs value => setting.setAll symbols value
  | _ => symbols

theorem execute_symbols {c : Command} (h : (execute setting s c).outcome = .ok t) :
    t.symbols = setting.retable s.symbols c := by
  cases c with
  | pop =>
    simp only [execute] at h
    split at h
    · cases h
      rfl
    · cases h
  | transform motion knob =>
    obtain ⟨turned, _, h⟩ := Trace.exists_of_bind_ok h
    cases h
    rfl
  | solid shape material system =>
    obtain ⟨found, _, h⟩ := Trace.exists_of_bind_ok h
    cases system
    all_goals
      cases h
      rfl
  | _ =>
    cases h
    rfl

theorem executeAll_symbols {commands : List Command}
    (h : (executeAll setting commands s).outcome = .ok t) :
    t.symbols = commands.foldl setting.retable s.symbols := by
  induction commands generalizing s with
  | nil =>
    cases h
    rfl
  | cons c rest ih =>
    obtain ⟨r, first, h⟩ := Trace.exists_of_bind_ok h
    rw [ih h, execute_symbols first]
    rfl

end Flipbook.Frame

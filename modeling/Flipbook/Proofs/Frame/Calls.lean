import Flipbook.Proofs.Run.Calls
import Flipbook.Proofs.Run.Failure

/-!
# The calls of a frame

A frame clears the canvas, and then each command that it comes to makes its own call, if it has any.
-/

namespace Flipbook.Frame

variable {setting : Setting} {s t : State} {c : Command} {e : Error}
variable {commands : List Command} {symbols : SymbolTable} {knobs : KnobValues} {i : Nat}

/-- The call that a command makes in a state. -/
def callOf? (setting : Setting) (s : State) : Command → Option Call
  | .display => some .display
  | .save path => some (.save path)
  | .line _ start _ stop _ => some (.lines (s.place (Mesh.edge start stop)) lineColor)
  | .solid shape material _ =>
    match SymbolTable.material s.symbols material with
    | .ok m => some (.polygons (s.place shape.points) setting.lighting m)
    | .error _ => none
  | _ => none

theorem calls_execute : (execute setting s c).calls = (callOf? setting s c).toList := by
  cases c with
  | pop =>
    rw [execute]
    cases s.stack.pop? <;> rfl
  | transform motion knob =>
    rw [execute]
    cases factor s.symbols knob <;> rfl
  | solid shape material system =>
    rw [execute, callOf?]
    cases SymbolTable.material s.symbols material with
    | error e => rfl
    | ok m => cases system <;> rfl
  | _ => rfl

/-- A command that fails makes no call. -/
theorem calls_execute_of_error (failed : (execute setting s c).outcome = .error e) :
    (execute setting s c).calls = [] := by
  rw [calls_execute]
  cases c with
  | solid shape material system =>
    have missing : SymbolTable.material s.symbols material = .error e := execute_error_iff.mp failed
    rw [callOf?, missing]
    rfl
  | display | save | line => cases failed
  | _ => rfl

/-- The call of command `i` of a frame, if the frame comes to the command and it makes one. -/
def ownCall? (commands : List Command) (symbols : SymbolTable) (knobs : KnobValues) (i : Nat) :
    Option Call := do
  let s ← (upTo commands symbols knobs i).outcome.toOption
  let c ← commands[i]?
  callOf? (.of symbols knobs) s c

/-- The calls of the first `n` commands of a frame, in the order of the commands. -/
def ownCalls (commands : List Command) (symbols : SymbolTable) (knobs : KnobValues) (n : Nat) :
    List Call :=
  (List.range n).filterMap (ownCall? commands symbols knobs)

/-- No command keeps a frame or assembles the kept ones. -/
theorem callOf?_own {call : Call} (own : callOf? setting s c = some call) :
    call.framePath? = none ∧ ∀ name, call ≠ .assemble name := by
  cases c with
  | display | save | line =>
    cases own
    exact ⟨rfl, nofun⟩
  | solid shape material system =>
    rw [callOf?] at own
    split at own
    · cases own
      exact ⟨rfl, nofun⟩
    · cases own
  | _ => cases own

theorem ownCalls_own {n : Nat} {call : Call} (own : call ∈ ownCalls commands symbols knobs n) :
    call.framePath? = none ∧ ∀ name, call ≠ .assemble name := by
  obtain ⟨i, _, made⟩ := List.mem_filterMap.mp own
  obtain ⟨s, _, made⟩ := Option.bind_eq_some_iff.mp made
  obtain ⟨c, _, made⟩ := Option.bind_eq_some_iff.mp made
  exact callOf?_own made

theorem upTo_succ (stands : commands[i]? = some c) :
    upTo commands symbols knobs (i + 1) =
      upTo commands symbols knobs i >>= fun s => execute (.of symbols knobs) s c := by
  rw [upTo, upTo, List.take_add_one, stands, Option.toList_some, executeAll_append]
  simp [executeAll]

theorem calls_upTo (within : i ≤ commands.length)
    (reached : (upTo commands symbols knobs i).outcome = .ok s) :
    (upTo commands symbols knobs i).calls = ownCalls commands symbols knobs i := by
  induction i generalizing s with
  | zero => rfl
  | succ i ih =>
    have stands : commands[i]? = some commands[i] := List.getElem?_eq_getElem within
    rw [upTo_succ stands] at reached ⊢
    obtain ⟨t, before, after⟩ := Trace.exists_of_bind_ok reached
    have own : ownCall? commands symbols knobs i =
        callOf? (.of symbols knobs) t commands[i] := by
      simp [ownCall?, before, stands, Except.toOption]
    rw [Replay.calls_of_ok before, ih (Nat.le_of_succ_le within) before, calls_execute, ownCalls,
      ownCalls, List.range_succ, List.filterMap_append, List.filterMap_cons, own]
    cases callOf? (.of symbols knobs) t commands[i] <;> rfl

/-- A frame that is replayed to its end makes the calls of all its commands. -/
theorem calls_replay_of_ok (completes : (replay commands symbols knobs).outcome = .ok ()) :
    (replay commands symbols knobs).calls =
      .clear :: ownCalls commands symbols knobs commands.length := by
  have cleared : (Replay.call .clear).outcome = .ok () := rfl
  rw [replay_eq_upTo commands symbols knobs commands.length, List.drop_length] at completes ⊢
  obtain ⟨_, _, completes⟩ := Trace.exists_of_bind_ok completes
  obtain ⟨s, reached, _⟩ := Trace.exists_of_bind_ok completes
  rw [Replay.calls_of_ok cleared, Replay.calls_of_ok reached,
    calls_upTo (Nat.le_refl _) reached]
  have silent : Replay.calls (do
      let s ← executeAll (.of symbols knobs) [] s
      if 1 < s.stack.depth then Replay.log (.unmatchedPushes (s.stack.depth - 1))) = [] := by
    rw [executeAll, pure_bind]
    split <;> rfl
  rw [silent, List.append_nil]
  rfl

/-- A frame that fails makes the calls of the commands before the one that fails. -/
theorem calls_replay_of_error (reached : (upTo commands symbols knobs i).outcome = .ok s)
    (stands : commands[i]? = some c) (failed : (execute (.of symbols knobs) s c).outcome = .error e) :
    (replay commands symbols knobs).calls = .clear :: ownCalls commands symbols knobs i := by
  have cleared : (Replay.call .clear).outcome = .ok () := rfl
  have within := (List.getElem?_eq_some_iff.mp stands).1
  obtain ⟨_, rest⟩ : ∃ rest, commands.drop i = c :: rest := by
    refine ⟨commands.drop (i + 1), ?_⟩
    rw [List.drop_eq_getElem_cons within, (List.getElem?_eq_some_iff.mp stands).2]
  have ends : (executeAll (.of symbols knobs) (commands.drop i) s).outcome = .error e := by
    rw [rest, executeAll]
    exact Trace.bind_error_iff.mpr (.inl failed)
  have silent : (executeAll (.of symbols knobs) (commands.drop i) s).calls = [] := by
    rw [rest, executeAll, Replay.calls_of_error failed, calls_execute_of_error failed]
  rw [replay_eq_upTo commands symbols knobs i, Replay.calls_of_ok cleared,
    Replay.calls_of_ok reached, calls_upTo (Nat.le_of_lt within) reached,
    Replay.calls_of_error ends, silent, List.append_nil]
  rfl

end Flipbook.Frame

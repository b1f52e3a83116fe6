import Flipbook.Animation.FramePolicy
import Flipbook.Proofs.InOrder

/-!
# Frame policies of scripts

When a script has a policy, how many frames it has then, and that no two frames share a file.
-/

namespace Flipbook.FramePolicy

open InOrder

variable {commands : List Command} {policy : FramePolicy} {directory : String} {f g : Nat}

/-- A command sets the number of frames. -/
def Sets (_ : List Command) (c : Command) (n : Int) : Prop :=
  c = .frames n

theorem framesSet?_eq_some_iff {n : Int} :
    framesSet? commands = some n ↔ Latest Sets commands n := by
  induction commands using List.reverseRecOn with
  | nil => exact iff_of_false nofun latest_nil
  | append_singleton commands c ih =>
    rw [latest_concat, ← ih, framesSet?, List.foldl_append, List.foldl_cons,
      List.foldl_nil]
    cases c with
    | frames m => simp [Sets, eq_comm]
    | _ => simp [Sets, framesSet?]

theorem framesSet?_eq_none_iff :
    framesSet? commands = none ↔ ∀ n, .frames n ∉ commands := by
  rw [Option.eq_none_iff_forall_ne_some]
  constructor
  · intro unset n given
    obtain ⟨i, stands⟩ := List.mem_iff_getElem?.mp given
    have here : Sets (commands.take i) (.frames n) n := rfl
    obtain ⟨m, last⟩ := exists_latest_iff.mpr ⟨i, _, n, stands, here⟩
    exact unset m (framesSet?_eq_some_iff.mpr last)
  · intro free n set
    obtain ⟨i, c, stands, rfl, _⟩ := framesSet?_eq_some_iff.mp set
    exact free n (List.mem_of_getElem? stands)

/-- A script without a number of frames is refused if it turns a knob over frames. -/
theorem ofCommands_error_iff {e : Error} : ofCommands commands = .error e ↔
    e = .framesNotSet ∧ (∃ c ∈ commands, turnsKnobs c = true) ∧ ∀ n, .frames n ∉ commands := by
  rw [ofCommands, ← framesSet?_eq_none_iff]
  cases framesSet? commands with
  | none =>
    rw [← List.any_eq_true]
    cases commands.any turnsKnobs with
    | true => simp [eq_comm]
    | false => simp
  | some n => cases basenameSet? commands <;> simp

/-- The number of frames is the last one that is set, and at least 1. -/
theorem frames_of_ok (policed : ofCommands commands = .ok policy) :
    (∀ n, Latest Sets commands n → policy.frames = (max n 1).toNat) ∧
      ((∀ n, .frames n ∉ commands) → policy.frames = 1) := by
  rw [← framesSet?_eq_none_iff]
  simp only [← framesSet?_eq_some_iff]
  rw [ofCommands] at policed
  cases set : framesSet? commands with
  | none =>
    rw [set] at policed
    dsimp only at policed
    split at policed
    · cases policed
    · cases policed
      simp
  | some n =>
    rw [set] at policed
    cases named : basenameSet? commands with
    | none | some name =>
      rw [named] at policed
      cases policed
      simp

/-! ### Files -/

theorem ofDigitChars_zeros (n : Nat) (digits : List Char) :
    Nat.ofDigitChars 10 (List.replicate n '0' ++ digits) 0 = Nat.ofDigitChars 10 digits 0 := by
  induction n with
  | zero => rfl
  | succ n ih => rw [List.replicate_succ, List.cons_append, Nat.ofDigitChars_cons]; exact ih

/-- The zeros in front do not change the number that is read. -/
theorem frameNumber_injective (same : frameNumber f = frameNumber g) : f = g := by
  have digits := String.ofList_injective same
  have read := congrArg (Nat.ofDigitChars 10 · 0) digits
  simpa only [ofDigitChars_zeros, Nat.ofDigitChars_ten_toDigits] using read

theorem framePath_injective (same : policy.framePath directory f = policy.framePath directory g) :
    f = g := by
  have numbers : (toString (frameNumber f)).toList = (toString (frameNumber g)).toList := by
    simpa [framePath, String.ext_iff] using same
  exact frameNumber_injective (String.toList_inj.mp numbers)

end Flipbook.FramePolicy

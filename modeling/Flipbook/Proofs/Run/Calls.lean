import Flipbook.Replay.Event

/-!
# The calls of a computation

A computation makes its calls in order, and each is answered before the next. `Host.carried` shows
that a host hears all of them, or those up to the first one that it refuses.
-/

namespace Flipbook

def Event.call? : Event → Option Call
  | .call c => some c
  | .log _ => none

/-- The path under which a call keeps a frame. -/
def Call.framePath? : Call → Option String
  | .saveFrame path => some path
  | _ => none

namespace Replay

variable {α β : Type}

/-- The calls of a computation that no call ends. -/
def calls (r : Replay α) : List Call :=
  r.events.filterMap Event.call?

theorem calls_of_ok {r : Replay α} {a : α} (ok : r.outcome = .ok a) (next : α → Replay β) :
    calls (r >>= next) = calls r ++ calls (next a) := by
  obtain ⟨events, outcome⟩ := r
  cases ok
  exact List.filterMap_append

theorem outcome_of_ok {r : Replay α} {a : α} (ok : r.outcome = .ok a) (next : α → Replay β) :
    (r >>= next).outcome = (next a).outcome := by
  obtain ⟨events, outcome⟩ := r
  cases ok
  rfl

theorem calls_of_error {r : Replay α} {e : Error} (failed : r.outcome = .error e)
    (next : α → Replay β) : calls (r >>= next) = calls r := by
  obtain ⟨events, outcome⟩ := r
  cases failed
  rfl

theorem calls_logging (t : Trace LogEntry Error α) : calls (logging t) = [] := by
  rw [calls, logging, List.filterMap_map, List.filterMap_eq_nil_iff]
  intro entry _
  rfl

end Replay

/-- How calls that were to be made, and an outcome after them, come out: all of them are answered,
or the first one that is refused is the last and gives the outcome. -/
inductive Carried {α : Type} (calls : List Call) (outcome : Except Error α) :
    List (Call × Except Error Unit) → Except Error α → Prop
  | through : Carried calls outcome (calls.map (·, .ok ())) outcome
  | refused {before c after e} (cut : calls = before ++ c :: after) :
      Carried calls outcome (before.map (·, .ok ()) ++ [(c, .error e)]) (.error e)

namespace Carried

variable {α : Type} {calls : List Call} {outcome result : Except Error α}
variable {told before after : List (Call × Except Error Unit)} {c : Call}
variable {answer : Except Error Unit}

theorem cons (carried : Carried calls outcome told result) (c : Call) :
    Carried (c :: calls) outcome ((c, .ok ()) :: told) result := by
  cases carried with
  | through => exact .through
  | @refused before refused after e cut =>
    have longer : c :: calls = (c :: before) ++ refused :: after := congrArg (c :: ·) cut
    exact .refused longer

theorem of_nil (carried : Carried [] outcome told result) : told = [] ∧ result = outcome := by
  cases carried with
  | through => exact ⟨rfl, rfl⟩
  | refused cut => simp at cut

/-- The calls that are made are the first ones of those that were to be made. -/
theorem asked (carried : Carried calls outcome told result) :
    ∃ unasked, calls = told.map Prod.fst ++ unasked := by
  cases carried with
  | through => exact ⟨[], by simp [Function.comp_def]⟩
  | @refused before c after e cut => exact ⟨after, by simp [Function.comp_def, cut]⟩

/-- Only the last call can be a refused one. -/
theorem answered (carried : Carried calls outcome told result) :
    ∀ earlier ∈ told.dropLast, earlier.2 = .ok () := by
  intro earlier member
  cases carried with
  | through =>
    obtain ⟨c, _, rfl⟩ := List.mem_map.mp (List.dropLast_subset _ member)
    rfl
  | refused cut =>
    rw [List.dropLast_concat] at member
    obtain ⟨c, _, rfl⟩ := List.mem_map.mp member
    rfl

end Carried

namespace Host

variable {σ α : Type} {host : Host σ}

/-- A host that also keeps what it was asked and what it answered. -/
def recording (host : Host σ) : Host (σ × List (Call × Except Error Unit)) where
  call c s := (((host.call c s.1).1, s.2 ++ [(c, (host.call c s.1).2)]), (host.call c s.1).2)
  log entry s := (host.log entry s.1, s.2)

/-- The calls that a computation makes to a host, with the answers. -/
def dialogue (host : Host σ) (r : Replay α) (world : σ) : List (Call × Except Error Unit) :=
  (host.recording.run r (world, [])).1.2

theorem perform_recording (host : Host σ) (events : List Event) (world : σ)
    (record : List (Call × Except Error Unit)) :
    ∃ told, host.recording.perform events (world, record) =
        (((host.perform events world).1, record ++ told), (host.perform events world).2) ∧
      Carried (events.filterMap Event.call?) (.ok ()) told (host.perform events world).2 := by
  induction events generalizing world record with
  | nil => exact ⟨[], by simp [perform], .through⟩
  | cons event rest ih =>
    cases event with
    | log entry => exact ih (host.log entry world) record
    | call c =>
      simp only [perform, recording]
      rcases asked : host.call c world with ⟨next, e | ⟨⟩⟩
      · have refused : Carried (c :: rest.filterMap Event.call?) (.ok ()) [(c, .error e)]
            (.error e) := @Carried.refused _ _ _ [] c _ e rfl
        exact ⟨[(c, .error e)], rfl, refused⟩
      · obtain ⟨told, same, carried⟩ := ih next (record ++ [(c, .ok ())])
        refine ⟨(c, .ok ()) :: told, ?_, carried.cons c⟩
        rw [← List.append_cons] at same
        exact same

/-- A host hears the calls of a computation in order, up to the first that it refuses. -/
theorem carried (host : Host σ) (r : Replay α) (world : σ) :
    Carried r.calls r.outcome (host.dialogue r world) (host.run r world).2 := by
  obtain ⟨told, same, carried⟩ := host.perform_recording r.events world []
  have heard : host.dialogue r world = told := by
    rw [dialogue, run, same]
    cases (host.perform r.events world).2 <;> rfl
  rw [heard, run]
  rcases performed : host.perform r.events world with ⟨world', answer⟩
  rw [performed] at carried
  cases carried with
  | through => exact .through
  | refused cut => exact .refused cut

end Host

end Flipbook

/-!
# Traces

A computation that reports events on its way and ends with a result or an error. What was reported
before an error stays reported.
-/

namespace Flipbook

/-- The events of a computation, in order, and how it ended. -/
structure Trace (ω ε α : Type) where
  events : List ω
  outcome : Except ε α

namespace Trace

variable {ω ε α β : Type}

def done (a : α) : Trace ω ε α := ⟨[], .ok a⟩

def report (event : ω) : Trace ω ε Unit := ⟨[event], .ok ()⟩

def ofExcept (outcome : Except ε α) : Trace ω ε α := ⟨[], outcome⟩

def fail (error : ε) : Trace ω ε α := ⟨[], .error error⟩

/-- Goes on with the result. After an error nothing follows. -/
def andThen (t : Trace ω ε α) (next : α → Trace ω ε β) : Trace ω ε β :=
  match t.outcome with
  | .ok a => ⟨t.events ++ (next a).events, (next a).outcome⟩
  | .error e => ⟨t.events, .error e⟩

instance : Monad (Trace ω ε) where
  pure := done
  bind := andThen

theorem pure_eq (a : α) : (pure a : Trace ω ε α) = ⟨[], .ok a⟩ := rfl

theorem bind_eq (t : Trace ω ε α) (next : α → Trace ω ε β) : t >>= next = t.andThen next := rfl

theorem andThen_ok (events : List ω) (a : α) (next : α → Trace ω ε β) :
    andThen ⟨events, .ok a⟩ next = ⟨events ++ (next a).events, (next a).outcome⟩ := rfl

theorem andThen_error (events : List ω) (e : ε) (next : α → Trace ω ε β) :
    andThen ⟨events, .error e⟩ next = ⟨events, .error e⟩ := rfl

theorem bind_ok_iff {t : Trace ω ε α} {next : α → Trace ω ε β} {b : β} :
    (t >>= next).outcome = .ok b ↔ ∃ a, t.outcome = .ok a ∧ (next a).outcome = .ok b := by
  obtain ⟨events, outcome⟩ := t
  cases outcome with
  | error e => simp [bind, andThen]
  | ok a => simp [bind, andThen]

theorem exists_of_bind_ok {t : Trace ω ε α} {next : α → Trace ω ε β} {b : β}
    (h : (t >>= next).outcome = .ok b) : ∃ a, t.outcome = .ok a ∧ (next a).outcome = .ok b :=
  bind_ok_iff.mp h

theorem bind_error_iff {t : Trace ω ε α} {next : α → Trace ω ε β} {e : ε} :
    (t >>= next).outcome = .error e ↔
      t.outcome = .error e ∨ ∃ a, t.outcome = .ok a ∧ (next a).outcome = .error e := by
  obtain ⟨events, outcome⟩ := t
  cases outcome with
  | error e' => simp [bind, andThen]
  | ok a => simp [bind, andThen]

theorem mem_events_bind {t : Trace ω ε α} {next : α → Trace ω ε β} {event : ω} :
    event ∈ (t >>= next).events ↔
      event ∈ t.events ∨ ∃ a, t.outcome = .ok a ∧ event ∈ (next a).events := by
  obtain ⟨events, outcome⟩ := t
  cases outcome with
  | error e => simp [bind, andThen]
  | ok a => simp [bind, andThen]

/-- What follows only matters on the result there is. -/
theorem bind_congr_ok {t : Trace ω ε α} {next next' : α → Trace ω ε β}
    (same : ∀ a, t.outcome = .ok a → next a = next' a) : t >>= next = t >>= next' := by
  obtain ⟨events, outcome⟩ := t
  cases outcome with
  | error e => rfl
  | ok a => simp only [bind_eq, andThen_ok, same a rfl]

theorem map_id (t : Trace ω ε α) : id <$> t = t := by
  obtain ⟨events, outcome⟩ := t
  cases outcome <;> simp [Functor.map, andThen, done]

theorem andThen_assoc {γ : Type} (t : Trace ω ε α) (f : α → Trace ω ε β) (g : β → Trace ω ε γ) :
    t >>= f >>= g = t >>= fun a => f a >>= g := by
  obtain ⟨events, outcome⟩ := t
  cases outcome with
  | error e => rfl
  | ok a =>
    simp only [bind, andThen]
    cases (f a).outcome <;> simp

instance : LawfulMonad (Trace ω ε) :=
  .mk' _ map_id (fun a next => by simp [bind, pure, andThen, done]) andThen_assoc

end Trace

/-- The result of a bind is the result of what goes on with the first result. -/
theorem exists_of_bind_ok {ε α β : Type} {x : Except ε α} {next : α → Except ε β} {b : β}
    (h : x >>= next = .ok b) : ∃ a, x = .ok a ∧ next a = .ok b := by
  cases x with
  | error e => cases h
  | ok a => exact ⟨a, rfl, h⟩

end Flipbook

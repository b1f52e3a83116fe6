import Flipbook.Script.Outline

/-!
# The arguments of a statement

The rules by which tokens fill the slots of a keyword, apart from the readers that follow them: what
a token has to be for a slot, and when a slot that may stay empty takes the next token.
`readSlots_ok_iff` shows that reading a row of slots succeeds exactly by these rules.
-/

namespace Flipbook.Script

/-! ### Rules -/

/-- The axis that a word means. -/
def axisOf (word : String) : Axis :=
  match word.toLower with
  | "x" => .x
  | "y" => .y
  | _ => .z

/-- A token fills a slot with a value. -/
def Fills : (slot : Slot) → Token → slot.Value → Prop
  | .number, token, x => token.kind = .number ∧ Number.readDecimal token.text = some x
  | .integer, token, n =>
    token.kind = .number ∧ ∃ x, Number.readDecimal token.text = some x ∧ GridNumber.toInt x = n
  | .name, token, name => (token.kind = .name ∨ token.kind = .path) ∧ token.text = name
  | .axis, token, axis => (token.kind = .axis ∨ token.kind = .name) ∧ axisOf token.text = axis
  | .optionalName, token, name? => token.kind = .name ∧ some token.text = name?
  | .optionalNumber, token, _ => token.kind = .number
  | .optionalEasing, token, easing? =>
    token.kind = .easing ∧ ∃ easing, Easing.ofName? token.text = some easing ∧ some easing = easing?

/-- For a slot that may stay empty: the kind of token it is for, and its value without one. -/
def Slot.optional? : (slot : Slot) → Option (TokenKind × slot.Value)
  | .number | .integer | .name | .axis => none
  | .optionalName => some (.name, none)
  | .optionalNumber => some (.number, ())
  | .optionalEasing => some (.easing, none)

/-- The next token is of a kind and stands on a line. -/
def Offered (place : Place) (kind : TokenKind) (following : List Token) : Prop :=
  ∃ token, following.head? = some token ∧ token.kind = kind ∧ token.place = place

/-- What a slot takes, in front of the tokens that follow. A slot that may stay empty takes the next
token exactly if it is of the right kind and stands on the line of the keyword. So an easing of an
unknown name, which fills no slot, is not passed over either. -/
inductive Takes (place : Place) (following : List Token) :
    (slot : Slot) → Option Token → slot.Value → Prop
  | required {slot token value} (must : slot.optional? = none) (fills : Fills slot token value) :
      Takes place following slot (some token) value
  | taken {slot kind absent token value} (may : slot.optional? = some (kind, absent))
      (here : token.place = place) (fills : Fills slot token value) :
      Takes place following slot (some token) value
  | omitted {slot kind absent} (may : slot.optional? = some (kind, absent))
      (next : ¬ Offered place kind following) : Takes place following slot none absent

/-- Tokens fill a row of slots from left to right, in front of the tokens that follow. -/
inductive Reads (place : Place) (following : List Token) :
    (slots : List Slot) → List Token → Arguments slots → Prop
  | nil : Reads place following [] [] ()
  | cons {slot slots taken value tokens values}
      (takes : Takes place (tokens ++ following) slot taken value)
      (more : Reads place following slots tokens values) :
      Reads place following (slot :: slots) (taken.toList ++ tokens) (value, values)

/-! ### Readers -/

variable {place : Place} {tokens rest following : List Token} {token : Token} {kind : TokenKind}
variable {e : GrammarError}

theorem required_ok_iff {α : Type} {read : Token → Trace LogEntry GrammarError α} {a : α} :
    (required read tokens).outcome = .ok (a, rest) ↔
      ∃ token, tokens = token :: rest ∧ (read token).outcome = .ok a := by
  cases tokens with
  | nil => simp [required, Trace.fail]
  | cons token tokens =>
    rw [required, Trace.bind_ok_iff]
    simp only [Trace.pure_eq, Except.ok.injEq, Prod.mk.injEq, List.cons.injEq]
    constructor
    · rintro ⟨a, read, rfl, rfl⟩
      exact ⟨token, ⟨rfl, rfl⟩, read⟩
    · rintro ⟨_, ⟨rfl, rfl⟩, read⟩
      exact ⟨a, read, rfl, rfl⟩

theorem required_error_iff {α : Type} {read : Token → Trace LogEntry GrammarError α} :
    (required read tokens).outcome = .error e ↔ (tokens = [] ∧ e = .scriptEnded) ∨
      ∃ token rest, tokens = token :: rest ∧ (read token).outcome = .error e := by
  cases tokens with
  | nil => simp [required, Trace.fail, eq_comm]
  | cons token rest =>
    rw [required, Trace.bind_error_iff]
    constructor
    · rintro (failed | ⟨a, _, failed⟩)
      · exact .inr ⟨token, rest, rfl, failed⟩
      · cases failed
    · rintro (⟨ended, _⟩ | ⟨_, _, same, failed⟩)
      · cases ended
      · cases same
        exact .inl failed

theorem return_ok_iff {α : Type} {read : Except GrammarError α} {a : α} :
    (do return (← Trace.ofExcept read, tokens) :
        Trace LogEntry GrammarError (α × List Token)).outcome = .ok (a, rest) ↔
      read = .ok a ∧ tokens = rest := by
  rw [Trace.bind_ok_iff]
  constructor
  · rintro ⟨b, found, same⟩
    cases same
    exact ⟨found, rfl⟩
  · rintro ⟨found, rfl⟩
    exact ⟨a, found, rfl⟩

theorem optional_ok_iff {α : Type} {read : Option Token → Except GrammarError α} {a : α} :
    (optional kind place read tokens).outcome = .ok (a, rest) ↔
      (∃ token, tokens = token :: rest ∧ token.kind = kind ∧ token.place = place ∧
        read (some token) = .ok a) ∨
      tokens = rest ∧ ¬ Offered place kind rest ∧ read none = .ok a := by
  cases tokens with
  | nil =>
    rw [optional, return_ok_iff]
    constructor
    · rintro ⟨found, rfl⟩
      refine .inr ⟨rfl, ?_, found⟩
      rintro ⟨token, next, _⟩
      cases next
    · rintro (⟨token, taken, _⟩ | ⟨rfl, _, found⟩)
      · cases taken
      · exact ⟨found, rfl⟩
  | cons token tokens =>
    rw [optional]
    split
    · next offered =>
      rw [return_ok_iff]
      constructor
      · rintro ⟨found, rfl⟩
        exact .inl ⟨token, rfl, offered.1, offered.2, found⟩
      · rintro (⟨_, taken, _, _, found⟩ | ⟨rfl, refused, _⟩)
        · cases taken
          exact ⟨found, rfl⟩
        · exact absurd ⟨token, rfl, offered⟩ refused
    · next refused =>
      rw [return_ok_iff]
      constructor
      · rintro ⟨found, rfl⟩
        refine .inr ⟨rfl, ?_, found⟩
        rintro ⟨_, next, offered⟩
        cases next
        exact refused offered
      · rintro (⟨_, taken, kind, here, _⟩ | ⟨same, _, found⟩)
        · cases taken
          exact absurd ⟨kind, here⟩ refused
        · exact ⟨found, same⟩

theorem exists_of_optional_error {α : Type} {read : Option Token → Except GrammarError α}
    (failed : (optional kind place read tokens).outcome = .error e) :
    ∃ token?, read token? = .error e := by
  have returned {token? : Option Token} {rest : List Token}
      (failed : (do return (← Trace.ofExcept (read token?), rest) :
        Trace LogEntry GrammarError (α × List Token)).outcome = .error e) :
      ∃ token?, read token? = .error e := by
    rcases Trace.bind_error_iff.mp failed with here | ⟨_, _, other⟩
    · exact ⟨token?, here⟩
    · cases other
  cases tokens with
  | nil => exact returned failed
  | cons token rest =>
    rw [optional] at failed
    split at failed
    · exact returned failed
    · exact returned failed

theorem number_ok_iff {x : Float32} :
    token.number = .ok x ↔ token.kind = .number ∧ Number.readDecimal token.text = some x := by
  rw [Token.number]
  split
  · next kind =>
    split
    · next y reads => simp [kind, reads]
    · next reads => simp [reads]
  · next kind => simp [kind]

theorem number_error_iff : token.number = .error e ↔
    (token.kind ≠ .number ∧ e = .notANumber token.place token.text) ∨
      (token.kind = .number ∧ Number.readDecimal token.text = none ∧
        e = .unreadableNumber token.place token.text) := by
  unfold Token.number
  split
  · next kind =>
    split
    · next reads => simp [kind, reads]
    · next reads => simp [kind, reads, eq_comm]
  · next kind => simp [kind, eq_comm]

theorem integer_ok_iff {n : Int} :
    token.number.map GridNumber.toInt = .ok n ↔
      token.kind = .number ∧ ∃ x, Number.readDecimal token.text = some x ∧ GridNumber.toInt x = n := by
  simp only [← exists_and_left, ← and_assoc, ← number_ok_iff]
  cases token.number <;> simp [Except.map]

theorem name_ok_iff {name : String} :
    token.name = .ok name ↔ (token.kind = .name ∨ token.kind = .path) ∧ token.text = name := by
  rw [Token.name]
  split
  · next kind => simp [kind]
  · next kind => simp [kind]

theorem axis_ok_iff {axis : Axis} :
    token.axis.outcome = .ok axis ↔
      (token.kind = .axis ∨ token.kind = .name) ∧ axisOf token.text = axis := by
  rw [Token.axis]
  split
  · next kind =>
    rw [axisOf]
    generalize token.text.toLower = word
    split <;> simp_all [Trace.done]
  · next kind => simp [kind, Trace.fail]

theorem easingOf_ok_iff {easing? : Option Easing} :
    easingOf (some token) = .ok easing? ↔
      ∃ easing, Easing.ofName? token.text = some easing ∧ some easing = easing? := by
  rw [easingOf]
  split
  · next easing known => simp [known]
  · next unknown => simp [unknown]

theorem takes_required_iff {slot : Slot} {value : slot.Value} (must : slot.optional? = none) :
    (∃ taken, tokens = taken.toList ++ rest ∧ Takes place rest slot taken value) ↔
      ∃ token, tokens = token :: rest ∧ Fills slot token value := by
  constructor
  · rintro ⟨taken, split, takes⟩
    cases takes with
    | required _ fills => exact ⟨_, split, fills⟩
    | taken may =>
      rw [must] at may
      cases may
    | omitted may =>
      rw [must] at may
      cases may
  · rintro ⟨token, split, fills⟩
    exact ⟨some token, split, .required must fills⟩

theorem takes_optional_iff {slot : Slot} {value absent : slot.Value}
    (may : slot.optional? = some (kind, absent)) :
    (∃ taken, tokens = taken.toList ++ rest ∧ Takes place rest slot taken value) ↔
      (∃ token, tokens = token :: rest ∧ token.place = place ∧ Fills slot token value) ∨
        tokens = rest ∧ ¬ Offered place kind rest ∧ absent = value := by
  constructor
  · rintro ⟨taken, split, takes⟩
    cases takes with
    | required must =>
      rw [must] at may
      cases may
    | taken _ here fills => exact .inl ⟨_, split, here, fills⟩
    | omitted may' next =>
      rw [may] at may'
      cases may'
      exact .inr ⟨split, next, rfl⟩
  · rintro (⟨token, split, here, fills⟩ | ⟨split, next, rfl⟩)
    · exact ⟨some token, split, .taken may here fills⟩
    · exact ⟨none, split, .omitted may next⟩

/-- The reader of a slot follows its rule. -/
theorem readSlot_ok_iff {slot : Slot} {value : slot.Value} :
    (readSlot place slot tokens).outcome = .ok (value, rest) ↔
      ∃ taken, tokens = taken.toList ++ rest ∧ Takes place rest slot taken value := by
  cases slot with
  | number =>
    rw [takes_required_iff rfl, readSlot, required_ok_iff]
    simp only [Trace.ofExcept, number_ok_iff, Fills]
  | integer =>
    rw [takes_required_iff rfl, readSlot, required_ok_iff]
    simp only [Trace.ofExcept, integer_ok_iff, Fills]
  | name =>
    rw [takes_required_iff rfl, readSlot, required_ok_iff]
    simp only [Trace.ofExcept, name_ok_iff, Fills]
  | axis =>
    rw [takes_required_iff rfl, readSlot, required_ok_iff]
    simp only [axis_ok_iff, Fills]
  | optionalName =>
    rw [takes_optional_iff rfl, readSlot, optional_ok_iff]
    simp only [Option.map_some, Option.map_none, Except.ok.injEq, Fills, and_left_comm]
  | optionalNumber =>
    rw [takes_optional_iff rfl, readSlot, optional_ok_iff]
    simp [Fills, and_comm]
  | optionalEasing =>
    rw [takes_optional_iff rfl, readSlot, optional_ok_iff]
    have absent {easing? : Option Easing} : easingOf none = .ok easing? ↔ none = easing? := by
      simp [easingOf]
    simp only [easingOf_ok_iff, absent, Fills, and_left_comm]

/-- A row of slots is read exactly if the tokens begin with tokens that fill it. -/
theorem readSlots_ok_iff {slots : List Slot} {values : Arguments slots} :
    (readSlots place slots tokens).outcome = .ok (values, rest) ↔
      ∃ arguments, tokens = arguments ++ rest ∧ Reads place rest slots arguments values := by
  induction slots generalizing tokens with
  | nil =>
    constructor
    · intro done
      cases done
      exact ⟨[], rfl, .nil⟩
    · rintro ⟨_, split, reads⟩
      cases reads
      rw [split]
      rfl
  | cons slot slots ih =>
    constructor
    · intro done
      obtain ⟨⟨value, middle⟩, first, done⟩ := Trace.exists_of_bind_ok done
      obtain ⟨⟨values', last⟩, more, done⟩ := Trace.exists_of_bind_ok done
      cases done
      obtain ⟨taken, rfl, takes⟩ := readSlot_ok_iff.mp first
      obtain ⟨arguments, rfl, reads⟩ := ih.mp more
      exact ⟨taken.toList ++ arguments, (List.append_assoc _ _ _).symm, .cons takes reads⟩
    · rintro ⟨arguments, rfl, reads⟩
      cases reads with
      | @cons _ _ taken value arguments values takes more =>
        have first := readSlot_ok_iff.mpr ⟨taken, List.append_assoc _ _ _, takes⟩
        have later := ih.mpr ⟨arguments, rfl, more⟩
        exact Trace.bind_ok_iff.mpr ⟨_, first, Trace.bind_ok_iff.mpr ⟨_, later, rfl⟩⟩

end Flipbook.Script

import Flipbook.Script.Statement

/-!
# Outlines

The outline of a script is the row of its statements, before any name is bound. Tokens that stand
where a statement should begin, and do not start one, are passed over up to the next keyword.
-/

namespace Flipbook.Script

/-- A part of an outline. -/
inductive Item
  | statement (s : Statement)
  | log (entry : LogEntry)
  deriving DecidableEq

/-! ### No reader adds tokens -/

theorem length_required {α : Type} {read : Token → Trace LogEntry GrammarError α}
    {tokens rest : List Token} {a : α}
    (h : (required read tokens).outcome = .ok (a, rest)) : rest.length ≤ tokens.length := by
  cases tokens with
  | nil => cases h
  | cons token tokens =>
    obtain ⟨a, -, h⟩ := Trace.exists_of_bind_ok h
    cases h
    simp

theorem length_optional {α : Type} {kind : TokenKind} {place : Place}
    {read : Option Token → Except GrammarError α} {tokens rest : List Token} {a : α}
    (h : (optional kind place read tokens).outcome = .ok (a, rest)) :
    rest.length ≤ tokens.length := by
  cases tokens with
  | nil =>
    obtain ⟨a, -, h⟩ := Trace.exists_of_bind_ok h
    cases h
    simp
  | cons token tokens =>
    rw [optional] at h
    split at h
    all_goals
      obtain ⟨a, -, h⟩ := Trace.exists_of_bind_ok h
      cases h
      simp

theorem length_readSlot {place : Place} {slot : Slot} {tokens rest : List Token}
    {value : slot.Value} (h : (readSlot place slot tokens).outcome = .ok (value, rest)) :
    rest.length ≤ tokens.length := by
  cases slot with
  | number | integer | name | axis => exact length_required h
  | optionalName | optionalNumber | optionalEasing => exact length_optional h

theorem length_readSlots {place : Place} {slots : List Slot} {tokens rest : List Token}
    {values : Arguments slots} (h : (readSlots place slots tokens).outcome = .ok (values, rest)) :
    rest.length ≤ tokens.length := by
  induction slots generalizing tokens with
  | nil => cases h; exact Nat.le_refl _
  | cons slot slots ih =>
    obtain ⟨⟨value, rest'⟩, first, h⟩ := Trace.exists_of_bind_ok h
    obtain ⟨⟨values', rest''⟩, more, h⟩ := Trace.exists_of_bind_ok h
    cases h
    exact Nat.le_trans (ih more) (length_readSlot first)

/-! ### Outlines -/

/-- The statements of a script, up to the first error. -/
def outline (tokens : List Token) : Trace Item GrammarError Unit :=
  match tokens with
  | [] => .done ()
  | token :: rest =>
    match token.kind with
    | .command keyword =>
      match _h : readSlots token.place keyword.slots rest with
      | ⟨entries, .ok (values, rest')⟩ =>
        let more := outline rest'
        ⟨entries.map .log ++ .statement (keyword.statement values) :: more.events, more.outcome⟩
      | ⟨entries, .error e⟩ => ⟨entries.map .log, .error e⟩
    | _ =>
      let more := outline (rest.dropWhile (!·.isCommand))
      ⟨.log (.statementIgnored token.place token.text) :: more.events, more.outcome⟩
termination_by tokens.length
decreasing_by
  · have := length_readSlots (congrArg Trace.outcome _h)
    simp; omega
  all_goals
    have := (List.dropWhile_sublist (!·.isCommand) (l := rest)).length_le
    simp; omega

end Flipbook.Script

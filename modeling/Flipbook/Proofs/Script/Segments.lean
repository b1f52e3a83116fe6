import Flipbook.Proofs.Scene.Bindings
import Flipbook.Proofs.Script.Arguments
import Mathlib.Data.List.TakeWhile

/-!
# Segments of a script

A script falls into segments from left to right: statements, and runs of tokens that stand where a
statement would begin. `statements?_eq_some_iff` shows that reading the outline of a script without
an error is the same as cutting its tokens into segments, and `Splits.unique` that there is no
choice in doing so.
-/

namespace Flipbook.Script

open Scene (statementsIn)

/-- A stretch of tokens: a statement with its meaning, or tokens that start none. -/
inductive Segment
  | statement (keyword : Token) (arguments : List Token) (meaning : Statement)
  | skipped (run : List Token)

def Segment.tokens : Segment → List Token
  | statement keyword arguments _ => keyword :: arguments
  | skipped run => run

def Segment.statement? : Segment → Option Statement
  | statement _ _ meaning => some meaning
  | skipped _ => none

/-- A segment can stand in front of the tokens that follow: the arguments of a keyword fill its
slots, and a run without a keyword goes on as far as it can. -/
def Segment.StandsBefore (following : List Token) : Segment → Prop
  | statement keyword arguments meaning =>
    ∃ (k : Keyword) (values : Arguments k.slots), keyword.kind = .command k ∧
      Reads keyword.place following k.slots arguments values ∧ meaning = k.statement values
  | skipped run =>
    run ≠ [] ∧ (∀ token ∈ run, token.isCommand = false) ∧
      ∀ token, following.head? = some token → token.isCommand = true

/-- Tokens, cut into segments from left to right. -/
inductive Splits : List Token → List Segment → Prop
  | nil : Splits [] []
  | cons {segment following segments} (stands : segment.StandsBefore following)
      (more : Splits following segments) : Splits (segment.tokens ++ following) (segment :: segments)

/-- The meanings of segments. -/
def meanings (segments : List Segment) : List Statement :=
  segments.filterMap Segment.statement?

/-- Every token lies in exactly one segment. -/
theorem Splits.tokens_eq {tokens : List Token} {segments : List Segment}
    (splits : Splits tokens segments) : tokens = segments.flatMap Segment.tokens := by
  induction splits with
  | nil => rfl
  | cons _ _ ih => rw [ih, List.flatMap_cons]

/-! ### Reading an outline -/

/-- The statements of tokens, if they can all be read. -/
def statements? (tokens : List Token) : Option (List Statement) :=
  match outline tokens with
  | ⟨items, .ok ()⟩ => some (statementsIn items)
  | ⟨_, .error _⟩ => none

variable {tokens rest following : List Token} {token : Token} {k : Keyword}

theorem statements?_nil : statements? [] = some [] := by
  rw [statements?, outline]
  rfl

theorem statementsIn_map_log (entries : List LogEntry) (items : List Item) :
    statementsIn (entries.map .log ++ items) = statementsIn items := by
  induction entries with
  | nil => rfl
  | cons entry entries ih => exact ih

theorem outline_command (starts : token.kind = .command k) :
    outline (token :: rest) =
      match readSlots token.place k.slots rest with
      | ⟨entries, .ok (values, rest')⟩ =>
        ⟨entries.map .log ++ .statement (k.statement values) :: (outline rest').events,
          (outline rest').outcome⟩
      | ⟨entries, .error e⟩ => ⟨entries.map .log, .error e⟩ := by
  obtain ⟨kind, text, place⟩ := token
  subst starts
  rw [outline]
  dsimp only
  split
  · next read => rw [read]
  · next read => rw [read]

theorem outline_plain (plain : token.isCommand = false) :
    (outline (token :: following)).outcome =
      (outline (following.dropWhile (!·.isCommand))).outcome := by
  obtain ⟨kind, text, place⟩ := token
  rw [outline]
  cases kind with
  | command k => cases plain
  | _ => rfl

theorem statements?_command (starts : token.kind = .command k) :
    statements? (token :: rest) =
      match (readSlots token.place k.slots rest).outcome with
      | .ok (values, rest') => (statements? rest').map (k.statement values :: ·)
      | .error _ => none := by
  rw [statements?, outline_command starts]
  generalize readSlots token.place k.slots rest = read
  obtain ⟨entries, e | ⟨values, rest'⟩⟩ := read
  · rfl
  · simp only [statements?]
    generalize outline rest' = more
    obtain ⟨items, e | ⟨⟩⟩ := more
    · rfl
    · exact congrArg some (statementsIn_map_log entries _)

theorem statements?_command_eq_some_iff {stated : List Statement}
    (starts : token.kind = .command k) : statements? (token :: rest) = some stated ↔
      ∃ values rest' later, (readSlots token.place k.slots rest).outcome = .ok (values, rest') ∧
        statements? rest' = some later ∧ stated = k.statement values :: later := by
  rw [statements?_command starts]
  constructor
  · intro read
    split at read
    · next values rest' filled =>
      obtain ⟨later, more, rfl⟩ := Option.map_eq_some_iff.mp read
      exact ⟨values, rest', later, filled, more, rfl⟩
    · cases read
  · rintro ⟨values, rest', later, filled, more, rfl⟩
    rw [filled]
    dsimp only
    rw [more, Option.map_some]

theorem statements?_plain (plain : token.isCommand = false) :
    statements? (token :: rest) = statements? (rest.dropWhile (!·.isCommand)) := by
  obtain ⟨kind, text, place⟩ := token
  rw [statements?, outline]
  cases kind with
  | command k => cases plain
  | _ =>
    rw [statements?]
    generalize outline (rest.dropWhile (!·.isCommand)) = more
    obtain ⟨items, outcome⟩ := more
    cases outcome <;> rfl

theorem statements?_dropWhile (tokens : List Token) :
    statements? (tokens.dropWhile (!·.isCommand)) = statements? tokens := by
  cases tokens with
  | nil => rfl
  | cons token rest =>
    cases plain : token.isCommand with
    | true => rw [List.dropWhile_cons_of_neg (by simp [plain])]
    | false => rw [statements?_plain plain, List.dropWhile_cons_of_pos (by simp [plain])]

theorem exists_keyword (starts : token.isCommand = true) : ∃ k, token.kind = .command k := by
  obtain ⟨kind, text, place⟩ := token
  cases kind with
  | command k => exact ⟨k, rfl⟩
  | _ => cases starts

/-- Induction along the segments of a script, as far as they can be read. -/
theorem segment_induction {motive : List Token → Prop} (nil : motive [])
    (command : ∀ (token : Token) (k : Keyword) (rest : List Token),
      token.kind = .command k → (∀ values rest',
        (readSlots token.place k.slots rest).outcome = .ok (values, rest') → motive rest') →
        motive (token :: rest))
    (plain : ∀ (token : Token) (rest : List Token), token.isCommand = false →
      motive (rest.dropWhile (!·.isCommand)) → motive (token :: rest))
    (tokens : List Token) : motive tokens := by
  match tokens with
  | [] => exact nil
  | token :: rest =>
    cases starts : token.isCommand with
    | true =>
      obtain ⟨k, kind⟩ := exists_keyword starts
      refine command token k rest kind fun values rest' read => ?_
      have shorter : rest'.length ≤ rest.length := length_readSlots read
      exact segment_induction nil command plain rest'
    | false =>
      refine plain token rest starts ?_
      have shorter := (List.dropWhile_sublist (!·.isCommand) (l := rest)).length_le
      exact segment_induction nil command plain _
termination_by tokens.length
decreasing_by all_goals simp; omega

/-! ### Cutting -/

theorem dropWhile_plain {run following : List Token}
    (plain : ∀ token ∈ run, token.isCommand = false)
    (maximal : ∀ token, following.head? = some token → token.isCommand = true) :
    (run ++ following).dropWhile (!·.isCommand) = following := by
  rw [List.dropWhile_append_of_pos (by simpa using plain)]
  cases following with
  | nil => rfl
  | cons token rest => rw [List.dropWhile_cons_of_neg (by simp [maximal token rfl])]

theorem Splits.statements? {segments : List Segment} (splits : Splits tokens segments) :
    statements? tokens = some (meanings segments) := by
  induction splits with
  | nil => exact statements?_nil
  | @cons segment following segments stands _ ih =>
    cases segment with
    | statement keyword arguments meaning =>
      obtain ⟨k, values, starts, reads, rfl⟩ := stands
      have filled := readSlots_ok_iff.mpr ⟨arguments, rfl, reads⟩
      exact (statements?_command_eq_some_iff starts).mpr ⟨values, following, _, filled, ih, rfl⟩
    | skipped run =>
      obtain ⟨_, plain, maximal⟩ := stands
      rw [← statements?_dropWhile, Segment.tokens, dropWhile_plain plain maximal, ih]
      rfl

theorem exists_splits {statements : List Statement} (read : statements? tokens = some statements) :
    ∃ segments, Splits tokens segments ∧ meanings segments = statements := by
  induction tokens using segment_induction generalizing statements with
  | nil =>
    rw [statements?_nil] at read
    cases read
    exact ⟨[], .nil, rfl⟩
  | command token k rest starts ih =>
    obtain ⟨values, rest', later, filled, more, rfl⟩ :=
      (statements?_command_eq_some_iff starts).mp read
    obtain ⟨segments, splits, rfl⟩ := ih values rest' filled more
    obtain ⟨arguments, rfl, reads⟩ := readSlots_ok_iff.mp filled
    refine ⟨.statement token arguments (k.statement values) :: segments, ?_, rfl⟩
    have stands : (Segment.statement token arguments (k.statement values)).StandsBefore rest' :=
      ⟨k, values, starts, reads, rfl⟩
    exact .cons stands splits
  | plain token rest plain ih =>
    rw [statements?_plain plain] at read
    obtain ⟨segments, splits, rfl⟩ := ih read
    refine ⟨.skipped (token :: rest.takeWhile (!·.isCommand)) :: segments, ?_, rfl⟩
    have stands : (Segment.skipped (token :: rest.takeWhile (!·.isCommand))).StandsBefore
        (rest.dropWhile (!·.isCommand)) := by
      refine ⟨List.cons_ne_nil _ _, fun other member => ?_, fun other next => ?_⟩
      · rcases List.mem_cons.mp member with rfl | member
        · exact plain
        · simpa using List.mem_takeWhile_imp member
      · have stops := List.head?_dropWhile_not (!·.isCommand) rest
        rw [next] at stops
        simpa using stops
    have whole := Splits.cons stands splits
    rwa [Segment.tokens, List.cons_append, List.takeWhile_append_dropWhile] at whole

/-- The statements of a script are the meanings of its segments. -/
theorem statements?_eq_some_iff {statements : List Statement} :
    statements? tokens = some statements ↔
      ∃ segments, Splits tokens segments ∧ meanings segments = statements := by
  refine ⟨exists_splits, ?_⟩
  rintro ⟨segments, splits, rfl⟩
  exact splits.statements?

theorem Segment.StandsBefore.tokens_ne_nil {segment : Segment}
    (stands : segment.StandsBefore following) : segment.tokens ≠ [] := by
  cases segment with
  | statement => exact List.cons_ne_nil _ _
  | skipped => exact stands.1

/-- Where a segment ends is no matter of choice. -/
theorem Segment.StandsBefore.unique {segment segment' : Segment} {following' : List Token}
    (stands : segment.StandsBefore following) (stands' : segment'.StandsBefore following')
    (same : segment.tokens ++ following = segment'.tokens ++ following') :
    segment = segment' ∧ following = following' := by
  cases segment with
  | statement keyword arguments meaning =>
    obtain ⟨k, values, starts, reads, rfl⟩ := stands
    cases segment' with
    | statement keyword' arguments' meaning' =>
      obtain ⟨k', values', starts', reads', rfl⟩ := stands'
      obtain ⟨rfl, rest⟩ := List.cons.inj same
      obtain rfl : k = k' := TokenKind.command.inj (starts.symm.trans starts')
      have read := readSlots_ok_iff.mpr ⟨arguments, rfl, reads⟩
      have read' := readSlots_ok_iff.mpr ⟨arguments', rest, reads'⟩
      cases read.symm.trans read'
      exact ⟨by rw [List.append_cancel_right rest], rfl⟩
    | skipped run =>
      obtain ⟨filled, plain, _⟩ := stands'
      obtain ⟨token, run, rfl⟩ := List.exists_cons_of_ne_nil filled
      obtain ⟨rfl, _⟩ := List.cons.inj same
      have still := plain keyword List.mem_cons_self
      simp [Token.isCommand, starts] at still
  | skipped run =>
    obtain ⟨filled, plain, maximal⟩ := stands
    cases segment' with
    | statement keyword arguments meaning =>
      obtain ⟨k, values, starts, _⟩ := stands'
      obtain ⟨token, run, rfl⟩ := List.exists_cons_of_ne_nil filled
      obtain ⟨rfl, _⟩ := List.cons.inj same
      have still := plain token List.mem_cons_self
      simp [Token.isCommand, starts] at still
    | skipped run' =>
      obtain ⟨_, plain', maximal'⟩ := stands'
      have ends : following = following' := by
        rw [← dropWhile_plain plain maximal, ← dropWhile_plain plain' maximal']
        exact congrArg _ same
      subst ends
      exact ⟨congrArg Segment.skipped (List.append_cancel_right same), rfl⟩

/-- Tokens are cut into segments in one way at most. -/
theorem Splits.unique {segments segments' : List Segment} (splits : Splits tokens segments)
    (splits' : Splits tokens segments') : segments = segments' := by
  induction splits generalizing segments' with
  | nil =>
    generalize same : ([] : List Token) = tokens at splits'
    cases splits' with
    | nil => rfl
    | cons stands _ => exact absurd (List.append_eq_nil_iff.mp same.symm).1 stands.tokens_ne_nil
  | @cons segment following segments stands _ ih =>
    generalize same : segment.tokens ++ following = tokens at splits'
    cases splits' with
    | nil => exact absurd (List.append_eq_nil_iff.mp same).1 stands.tokens_ne_nil
    | cons stands' more =>
      obtain ⟨rfl, rfl⟩ := stands.unique stands' same
      rw [ih more]

end Flipbook.Script

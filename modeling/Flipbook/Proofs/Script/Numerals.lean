import Flipbook.Proofs.Scene.Grammar
import Flipbook.Proofs.Script.Comments

/-!
# Numerals of other scripts

The number tokens are made of the digits of all scripts, but only the ASCII digits can be read. This
is the only difference between the two (`readDecimal_isSome_iff`), and it is the only reason why the
text of a number token may have no value (`numbers_read_iff_ascii`).
-/

namespace Flipbook.Script

open Text Pattern Number

variable {cs rest : List Char} {text : String} {token : Token} {tokens following : List Token}
variable {place found : Place} {e : GrammarError}

/-- All digits of a text are ASCII digits. -/
def AsciiDigits (cs : List Char) : Prop :=
  ∀ c ∈ cs, isDigit c = true → c.isDigit = true

instance : Decidable (AsciiDigits cs) :=
  List.decidableBAll (fun c => isDigit c = true → c.isDigit = true) cs

/-! ### Reading a numeral -/

/-- A digit or a point: what a number without a sign and an exponent is made of. -/
def IsPlain (c : Char) : Prop :=
  isDigit c = true ∨ c = '.'

theorem toLower_of_plain {c : Char} (plain : IsPlain c) : c.toLower = c := by
  have other : c.isUpper = false := by
    rcases plain with digit | rfl
    · by_contra upper
      have letter : c.isAlpha = true := Bool.or_eq_true_iff.mpr (.inl ((Bool.not_eq_false _).mp upper))
      have start : isNameStart c = true := by
        simp [isNameStart, letter]
      rw [isDigit_of_isNameStart start] at digit
      cases digit
    · rfl
  unfold Char.toLower
  split
  · next upper =>
    exact absurd upper (of_decide_eq_false other)
  · rfl

theorem readMagnitude_of_plain (plain : ∀ c ∈ cs, IsPlain c) : readMagnitude cs = readDigits cs := by
  have lower : cs.map Char.toLower = cs :=
    (List.map_congr_left fun c member => toLower_of_plain (plain c member)).trans (List.map_id cs)
  have named {word : List Char} {c : Char} (first : c ∈ word) (letter : ¬ IsPlain c) : cs ≠ word := by
    rintro rfl
    exact letter (plain c first)
  have i : ¬ IsPlain 'i' := by
    unfold IsPlain
    decide
  have n : ¬ IsPlain 'n' := by
    unfold IsPlain
    decide
  unfold readMagnitude
  dsimp only
  rw [lower, if_neg, if_neg]
  · exact named (by decide) n
  · exact not_or.mpr ⟨named (by decide) i, named (by decide) i⟩

theorem readExponent_of_plain (plain : ∀ c ∈ rest, IsPlain c) :
    (readExponent rest).isSome = true ↔ rest = [] := by
  cases rest with
  | nil => exact iff_of_true rfl rfl
  | cons mark more =>
    have other : mark.toLower ≠ 'e' := by
      have here := plain mark List.mem_cons_self
      rw [toLower_of_plain here]
      rintro rfl
      unfold IsPlain at here
      exact absurd here (by decide)
    simp [readExponent, other]

theorem readDigits_isSome_iff : (readDigits cs).isSome = true ↔
    (cs.takeWhile Char.isDigit ++ (cutFraction (cs.dropWhile Char.isDigit)).1).isEmpty = false ∧
      (readExponent (cutFraction (cs.dropWhile Char.isDigit)).2).isSome = true := by
  unfold readDigits
  dsimp only
  split
  · next nothing => simp [nothing]
  · next filled => simp [filled]

theorem subset_of_cutFraction : (cutFraction cs).2 ⊆ cs := by
  unfold cutFraction
  split
  · exact fun _ member => List.mem_cons_of_mem _ ((List.dropWhile_suffix _).subset member)
  · exact List.Subset.refl _

/-- Text of which the fraction leaves nothing is empty, or a point with digits behind it. -/
theorem eq_of_cutFraction (done : (cutFraction cs).2 = []) :
    cs = [] ∨ ∃ fraction, cs = '.' :: fraction ∧ ∀ c ∈ fraction, c.isDigit = true := by
  unfold cutFraction at done
  split at done
  · next fraction => exact .inr ⟨fraction, rfl, List.dropWhile_eq_nil_iff.mp done⟩
  · exact .inl done

theorem asciiDigits_of_readDigits (plain : ∀ c ∈ cs, IsPlain c)
    (reads : (readDigits cs).isSome = true) : AsciiDigits cs := by
  have parts := List.takeWhile_append_dropWhile (p := Char.isDigit) (l := cs)
  have whole : ∀ c ∈ cs.takeWhile Char.isDigit, c.isDigit = true := fun c => List.mem_takeWhile_imp
  obtain ⟨-, power⟩ := readDigits_isSome_iff.mp reads
  -- An exponent would begin with a letter, so there is none.
  have inside : ∀ c ∈ (cutFraction (cs.dropWhile Char.isDigit)).2, IsPlain c := fun c member =>
    plain c ((List.dropWhile_suffix _).subset (subset_of_cutFraction member))
  intro c member digit
  rw [← parts] at member
  rcases List.mem_append.mp member with before | behind
  · exact whole c before
  · rcases eq_of_cutFraction ((readExponent_of_plain inside).mp power) with stop | ⟨_, stop, all⟩
    · rw [stop] at behind
      cases behind
    · rw [stop] at behind
      rcases List.mem_cons.mp behind with rfl | behind
      · rw [isDigit_point] at digit
        cases digit
      · exact all c behind

theorem readDigits_of_asciiDigits (fits : cs ∈ magnitudeShape) (ascii : AsciiDigits cs) :
    (readDigits cs).isSome = true := by
  rw [readDigits_isSome_iff]
  rcases mem_magnitudeShape.mp fits with digits | ⟨whole, fraction, rfl, digits, digits', filled⟩
  · obtain ⟨filled, digits⟩ := mem_run.mp digits
    have all : ∀ c ∈ cs, c.isDigit = true := fun c member => ascii c member (digits c member)
    rw [List.takeWhile_eq_self_iff.mpr all, List.dropWhile_eq_nil_iff.mpr all]
    exact ⟨by simpa [cutFraction] using filled, rfl⟩
  · have first : ∀ c ∈ whole, c.isDigit = true := fun c member =>
      ascii c (List.mem_append_left _ member) (digits c member)
    have last : ∀ c ∈ fraction, c.isDigit = true := fun c member =>
      ascii c (List.mem_append_right _ (List.mem_cons_of_mem _ member)) (digits' c member)
    rw [takeWhile_stops first (by decide), dropWhile_stops first (by decide)]
    have cut : cutFraction ('.' :: fraction) = (fraction, []) := by
      rw [cutFraction, List.takeWhile_eq_self_iff.mpr last, List.dropWhile_eq_nil_iff.mpr last]
    rw [cut]
    exact ⟨by simpa using filled, rfl⟩

theorem readDecimal_isSome (text : String) :
    (readDecimal text).isSome = (readMagnitude (cutSign text.toList).2).isSome :=
  Option.isSome_map

theorem cutSign_of_plain (plain : ∀ c ∈ cs, IsPlain c) : (cutSign cs).2 = cs := by
  unfold cutSign
  split
  · exact absurd (plain '-' List.mem_cons_self) (by unfold IsPlain; decide)
  · exact absurd (plain '+' List.mem_cons_self) (by unfold IsPlain; decide)
  · rfl

theorem asciiDigits_minus : AsciiDigits ('-' :: cs) ↔ AsciiDigits cs := by
  have minus : isDigit '-' = false := by decide
  simp [AsciiDigits, minus]

/-- The text of a number can be read unless it has a digit that is not an ASCII digit. -/
theorem readDecimal_isSome_iff (fits : text.toList ∈ numberShape) :
    (readDecimal text).isSome = true ↔ AsciiDigits text.toList := by
  have magnitude {cs : List Char} (fits : cs ∈ magnitudeShape) :
      (readMagnitude cs).isSome = true ↔ AsciiDigits cs := by
    have plain : ∀ c ∈ cs, IsPlain c := mem_magnitude_chars fits
    rw [readMagnitude_of_plain plain]
    exact ⟨asciiDigits_of_readDigits plain, readDigits_of_asciiDigits fits⟩
  rw [readDecimal_isSome]
  rcases mem_numberShape.mp fits with fits | ⟨digits, fits, signed⟩
  · rw [cutSign_of_plain (mem_magnitude_chars fits)]
    exact magnitude fits
  · rw [signed, asciiDigits_minus]
    exact magnitude fits

/-! ### Errors of numeric arguments -/

/-- The slots that take a number token. -/
def Slot.Numeric (slot : Slot) : Prop :=
  slot = .number ∨ slot = .integer

theorem readSlot_numeric_error_iff {slot : Slot} (numeric : slot.Numeric) :
    (readSlot place slot tokens).outcome = .error e ↔ (tokens = [] ∧ e = .scriptEnded) ∨
      ∃ token rest, tokens = token :: rest ∧ token.number = .error e := by
  rcases numeric with rfl | rfl
  · exact required_error_iff
  · rw [readSlot, required_error_iff]
    have mapped (token : Token) :
        token.number.map (GridNumber.toInt : Float32 → Int) = .error e ↔
          token.number = .error e := by
      cases token.number <;> simp [Except.map]
    simp only [Trace.ofExcept, mapped]

/-- Why the tokens left over do not begin with a number. -/
inductive NumberRefused : List Token → GrammarError → Prop
  | ended : NumberRefused [] .scriptEnded
  | otherKind {token : Token} {rest : List Token} (kind : token.kind ≠ .number) :
      NumberRefused (token :: rest) (.notANumber token.place token.text)
  | otherDigits {token : Token} {rest : List Token} (kind : token.kind = .number)
      (digits : ¬ AsciiDigits token.text.toList) :
      NumberRefused (token :: rest) (.unreadableNumber token.place token.text)

theorem numberRefused_iff
    (fit : ∀ token ∈ tokens, token.kind = .number → token.text.toList ∈ numberShape) :
    NumberRefused tokens e ↔ (tokens = [] ∧ e = .scriptEnded) ∨
      ∃ token rest, tokens = token :: rest ∧ token.number = .error e := by
  constructor
  · intro refused
    cases refused with
    | ended => exact .inl ⟨rfl, rfl⟩
    | otherKind kind => exact .inr ⟨_, _, rfl, number_error_iff.mpr (.inl ⟨kind, rfl⟩)⟩
    | otherDigits kind digits =>
      rw [← readDecimal_isSome_iff (fit _ List.mem_cons_self kind)] at digits
      have valueless := Option.not_isSome_iff_eq_none.mp digits
      exact .inr ⟨_, _, rfl, number_error_iff.mpr (.inr ⟨kind, valueless, rfl⟩)⟩
  · rintro (⟨rfl, rfl⟩ | ⟨token, rest, rfl, failed⟩)
    · exact .ended
    · rcases number_error_iff.mp failed with ⟨kind, rfl⟩ | ⟨kind, valueless, rfl⟩
      · exact .otherKind kind
      · have digits := Option.not_isSome_iff_eq_none.mpr valueless
        rw [readDecimal_isSome_iff (fit token List.mem_cons_self kind)] at digits
        exact .otherDigits kind digits

/-! ### Unreadable numbers of a script -/

/-- The token is a number that has no value. -/
def Token.Unreadable (token : Token) (place : Place) (text : String) : Prop :=
  token.number = .error (.unreadableNumber place text)

theorem unreadable_of_readSlot {slot : Slot}
    (failed : (readSlot place slot tokens).outcome = .error (.unreadableNumber found text)) :
    ∃ token ∈ tokens, token.Unreadable found text := by
  have numeric (is : slot.Numeric) : ∃ token ∈ tokens, token.Unreadable found text := by
    rcases (readSlot_numeric_error_iff is).mp failed with ⟨_, other⟩ | ⟨token, rest, rfl, here⟩
    · cases other
    · exact ⟨token, List.mem_cons_self, here⟩
  cases slot with
  | number => exact numeric (.inl rfl)
  | integer => exact numeric (.inr rfl)
  | name =>
    rcases required_error_iff.mp failed with ⟨_, other⟩ | ⟨token, rest, _, other⟩
    · cases other
    · unfold Token.name at other
      split at other <;> cases other
  | axis =>
    rcases required_error_iff.mp failed with ⟨_, other⟩ | ⟨token, rest, _, other⟩
    · cases other
    · unfold Token.axis at other
      repeat' split at other
      all_goals cases other
  | optionalName | optionalNumber =>
    obtain ⟨token?, other⟩ := exists_of_optional_error failed
    cases other
  | optionalEasing =>
    obtain ⟨token?, other⟩ := exists_of_optional_error failed
    unfold easingOf at other
    repeat' split at other
    all_goals cases other

theorem unreadable_of_readSlots {slots : List Slot}
    (failed : (readSlots place slots tokens).outcome = .error (.unreadableNumber found text)) :
    ∃ token ∈ tokens, token.Unreadable found text := by
  induction slots generalizing tokens with
  | nil => cases failed
  | cons slot slots ih =>
    rcases Trace.bind_error_iff.mp failed with first | ⟨⟨value, rest⟩, read, failed⟩
    · exact unreadable_of_readSlot first
    · rcases Trace.bind_error_iff.mp failed with later | ⟨_, _, other⟩
      · obtain ⟨token, member, unreadable⟩ := ih later
        obtain ⟨taken, rfl, _⟩ := readSlot_ok_iff.mp read
        exact ⟨token, List.mem_append_right _ member, unreadable⟩
      · cases other

theorem unreadable_of_outline
    (failed : (outline tokens).outcome = .error (.unreadableNumber found text)) :
    ∃ token ∈ tokens, token.Unreadable found text := by
  induction tokens using segment_induction with
  | nil =>
    rw [outline] at failed
    cases failed
  | command token k rest starts ih =>
    rw [outline_command starts] at failed
    split at failed
    · next values rest' read =>
      have read := congrArg Trace.outcome read
      obtain ⟨token', member, unreadable⟩ := ih values rest' read failed
      obtain ⟨arguments, rfl, _⟩ := readSlots_ok_iff.mp read
      have behind := List.mem_append_right arguments member
      exact ⟨token', List.mem_cons_of_mem token behind, unreadable⟩
    · next read =>
      cases failed
      obtain ⟨token', member, unreadable⟩ := unreadable_of_readSlots (congrArg Trace.outcome read)
      exact ⟨token', List.mem_cons_of_mem token member, unreadable⟩
  | plain token rest plain ih =>
    rw [outline_plain plain] at failed
    obtain ⟨token', member, unreadable⟩ := ih failed
    have behind := (List.dropWhile_suffix _).subset member
    exact ⟨token', List.mem_cons_of_mem token behind, unreadable⟩

theorem unreadable_of_ofTokens (failed : (Scene.ofTokens tokens).outcome =
      .error (.grammar (.unreadableNumber found text))) :
    ∃ token ∈ tokens, token.Unreadable found text := by
  rcases Trace.bind_error_iff.mp failed with binding | ⟨scene, _, failed⟩
  · obtain ⟨name, other⟩ := Scene.ofItems_error binding
    cases other
  · split at failed
    · cases failed
    · next outlined =>
      cases failed
      exact unreadable_of_outline outlined

/-! ### Sources -/

theorem asciiDigits_of_source {origin source : String}
    (read : tokenize origin source = .ok tokens) (ascii : AsciiDigits source.toList)
    (member : token ∈ tokens) : AsciiDigits token.text.toList := by
  obtain ⟨i, line, ls, rest, l, here, lexes, among, rfl⟩ := exists_lexeme read member
  rw [Lexeme.text_token]
  have within := (lexes.text_isInfix among).trans (trim_isInfix line)
  intro c inside
  exact ascii c (subset_of_mem_lines (List.mem_of_getElem? here) (within.subset inside))

/-- The text of a number token has a value exactly if all its digits are ASCII digits. A numeric
argument fails only if there is no number token, or one with other digits. A script without other
digits has no number that cannot be read. -/
theorem numbers_read_iff_ascii {origin source : String}
    (read : tokenize origin source = .ok tokens) :
    (∀ token ∈ tokens, token.kind = .number →
      ((readDecimal token.text).isSome = true ↔ AsciiDigits token.text.toList)) ∧
    (∀ place following e, following <:+ tokens → ∀ slot : Slot, slot.Numeric →
      ((readSlot place slot following).outcome = .error e ↔ NumberRefused following e)) ∧
    (∀ place text,
      (Scene.ofTokens tokens).outcome = .error (.grammar (.unreadableNumber place text)) →
        ∃ token ∈ tokens, token.kind = .number ∧ token.place = place ∧ token.text = text ∧
          ¬ AsciiDigits text.toList) ∧
    (AsciiDigits source.toList → ∀ place text,
      (Scene.ofTokens tokens).outcome ≠ .error (.grammar (.unreadableNumber place text))) := by
  have fit : ∀ token ∈ tokens, token.kind = .number → token.text.toList ∈ numberShape := by
    intro token member kind
    obtain ⟨i, line, ls, rest, l, -, lexes, among, rfl⟩ := exists_lexeme read member
    obtain ⟨tail, begins⟩ := lexes.begins among
    have shape := begins.fits
    rw [show l.kind = .number from kind] at shape
    rw [Lexeme.text_token]
    exact shape
  have foreign (place text) (failed : (Scene.ofTokens tokens).outcome =
        .error (.grammar (.unreadableNumber place text))) :
      ∃ token ∈ tokens, token.kind = .number ∧ token.place = place ∧ token.text = text ∧
        ¬ AsciiDigits text.toList := by
    obtain ⟨token, member, unreadable⟩ := unreadable_of_ofTokens failed
    rcases number_error_iff.mp unreadable with ⟨_, other⟩ | ⟨kind, valueless, same⟩
    · cases other
    · cases same
      rw [← readDecimal_isSome_iff (fit token member kind), valueless]
      exact ⟨token, member, kind, rfl, rfl, nofun⟩
  refine ⟨fun token member kind => readDecimal_isSome_iff (fit token member kind), ?_, foreign, ?_⟩
  · intro place following e left slot numeric
    rw [readSlot_numeric_error_iff numeric,
      numberRefused_iff fun token member => fit token (left.subset member)]
  · intro ascii place text failed
    obtain ⟨token, member, -, -, rfl, other⟩ := foreign place text failed
    exact other (asciiDigits_of_source read ascii member)

/-- Numbers of all forms, the last of which has a digit that is not an ASCII digit. -/
theorem arabic_digit_has_no_value :
    let place : Place := ⟨"t.mdl", 1⟩
    let tokens : List Token := [⟨.command .move, "move", place⟩, ⟨.number, "1.", place⟩,
      ⟨.number, ".5", place⟩, ⟨.number, "-\u0663", place⟩]
    tokenize "t.mdl" "move 1. .5 -\u0663" = .ok tokens ∧
      (readDecimal ".5").isSome = true ∧ readDecimal "-\u0663" = none ∧
      (readSlot place .number [⟨.number, "-\u0663", place⟩]).outcome =
        .error (.unreadableNumber place "-\u0663") := by
  intro place tokens
  have read : tokenize "t.mdl" "move 1. .5 -\u0663" = .ok tokens := by decide +kernel
  obtain ⟨values, refused, -, -⟩ := numbers_read_iff_ascii read
  have half := values ⟨.number, ".5", place⟩ (by decide) rfl
  have three := values ⟨.number, "-\u0663", place⟩ (by decide) rfl
  have ascii : AsciiDigits ".5".toList := by decide
  have digits : ¬ AsciiDigits "-\u0663".toList := by decide
  refine ⟨read, half.mpr ascii, ?_, ?_⟩
  · exact Option.not_isSome_iff_eq_none.mp (three.not.mpr digits)
  · exact (refused place _ _ ⟨tokens.take 3, rfl⟩ .number (.inl rfl)).mpr (.otherDigits rfl digits)

/-- A digit of another script is lexed as a number, and then the parser cannot read it. -/
theorem lexed_number_cannot_be_read :
    let place : Place := ⟨"t.mdl", 1⟩
    let three : Token := ⟨.number, "\u0663", place⟩
    tokenize "t.mdl" "move \u0663 0 0" = .ok [⟨.command .move, "move", place⟩, three,
        ⟨.number, "0", place⟩, ⟨.number, "0", place⟩] ∧
      readDecimal three.text = none ∧
      (Scene.ofSource "t.mdl" "move \u0663 0 0").outcome =
        .error (.grammar (.unreadableNumber place three.text)) := by
  decide +kernel

end Flipbook.Script

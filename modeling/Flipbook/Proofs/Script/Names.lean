import Flipbook.Proofs.Script.Accounts
import Flipbook.Proofs.Script.Segments

/-!
# Where the names of statements come from

The names among the arguments of a statement are the texts of tokens of two kinds
(`Splits.stated`), and neither kind has the text of a keyword (`not_named_of_keyword`).
-/

namespace Flipbook.Script

open Text Pattern

variable {tokens following : List Token} {place : Place} {name : String}

/-- The names in an argument. -/
def Slot.names : (slot : Slot) → slot.Value → List String
  | .name, name => [name]
  | .optionalName, name? => name?.toList
  | .number, _ | .integer, _ | .axis, _ | .optionalNumber, _ | .optionalEasing, _ => []

/-- The names among the arguments of a statement. -/
def argumentNames : (slots : List Slot) → Arguments slots → List String
  | [], () => []
  | slot :: slots, (value, values) => slot.names value ++ argumentNames slots values

/-- The token stands for a name, which is its text. -/
def Token.Named (token : Token) (name : String) : Prop :=
  (token.kind = .name ∨ token.kind = .path) ∧ token.text = name

theorem Fills.named {slot : Slot} {token : Token} {value : slot.Value}
    (fills : Fills slot token value) (among : name ∈ slot.names value) : token.Named name := by
  cases slot with
  | name =>
    obtain ⟨kind, text⟩ := fills
    exact ⟨kind, text.trans (List.mem_singleton.mp among).symm⟩
  | optionalName =>
    obtain ⟨kind, text⟩ := fills
    rw [← text] at among
    exact ⟨.inl kind, (List.mem_singleton.mp among).symm⟩
  | _ => cases among

theorem Takes.named {slot : Slot} {taken : Option Token} {value : slot.Value}
    (takes : Takes place following slot taken value) (among : name ∈ slot.names value) :
    ∃ token ∈ taken, token.Named name := by
  cases takes with
  | required _ fills => exact ⟨_, rfl, fills.named among⟩
  | taken _ _ fills => exact ⟨_, rfl, fills.named among⟩
  | omitted may =>
    -- What stands for a missing argument names nothing.
    cases slot with
    | optionalName | optionalNumber | optionalEasing =>
      cases may
      cases among
    | _ => cases may

theorem Reads.named {slots : List Slot} {values : Arguments slots}
    (reads : Reads place following slots tokens values)
    (among : name ∈ argumentNames slots values) : ∃ token ∈ tokens, token.Named name := by
  induction reads with
  | nil => cases among
  | cons takes _ ih =>
    rcases List.mem_append.mp among with here | later
    · obtain ⟨token, taken, named⟩ := takes.named here
      exact ⟨token, List.mem_append_left _ (Option.mem_toList.mpr taken), named⟩
    · obtain ⟨token, member, named⟩ := ih later
      exact ⟨token, List.mem_append_right _ member, named⟩

/-- The statement is that of a keyword, and the names among its arguments stand in the tokens. -/
def Stated (tokens : List Token) (s : Statement) : Prop :=
  ∃ (k : Keyword) (values : Arguments k.slots), s = k.statement values ∧
    ∀ name ∈ argumentNames k.slots values, ∃ token ∈ tokens, token.Named name

variable {s : Statement}

theorem Stated.mono {tokens' : List Token} (stated : Stated tokens s) (within : tokens ⊆ tokens') :
    Stated tokens' s := by
  obtain ⟨k, values, same, named⟩ := stated
  refine ⟨k, values, same, fun name among => ?_⟩
  obtain ⟨token, inside, named⟩ := named name among
  exact ⟨token, within inside, named⟩

theorem Splits.stated {segments : List Segment} (splits : Splits tokens segments)
    (member : s ∈ meanings segments) : Stated tokens s := by
  induction splits with
  | nil => cases member
  | @cons segment following segments stands _ ih =>
    cases segment with
    | skipped run => exact (ih member).mono (List.subset_append_right _ _)
    | statement keyword arguments meaning =>
      rcases List.mem_cons.mp member with rfl | member
      · obtain ⟨k, values, _, reads, same⟩ := stands
        have here : Stated arguments s := ⟨k, values, same, fun name => reads.named⟩
        have within : arguments ⊆ keyword :: arguments := List.subset_cons_self _ _
        exact here.mono (List.Subset.trans within (List.subset_append_left _ _))
      · exact (ih member).mono (List.subset_append_right _ _)

/-- A keyword is not a name. -/
theorem not_named_of_keyword {origin source : String} {token : Token} {word : String} {k : Keyword}
    (read : tokenize origin source = .ok tokens) (member : token ∈ tokens)
    (keyword : wordKind word = .command k) (plain : '.' ∉ word.toList) : ¬ token.Named word := by
  rintro ⟨kind, text⟩
  obtain ⟨i, line, ls, rest, l, -, lexes, among, rfl⟩ := exists_lexeme read member
  obtain ⟨tail, begins⟩ := lexes.begins among
  have word_text : String.ofList l.text = word := text
  have kind : l.kind = .name ∨ l.kind = .path := kind
  cases begins with
  | number longest => rcases kind with kind | kind <;> cases kind
  | path _ longest =>
    rw [← word_text, String.toList_ofList] at plain
    exact plain (point_mem_of_path longest.fits)
  | word =>
    rw [← word_text] at keyword
    rcases kind with kind | kind <;> rw [keyword] at kind <;> cases kind

end Flipbook.Script

import Flipbook.Proofs.Script.Rows
import Flipbook.Proofs.Script.Segments

/-!
# Scripts behind each other

What a script says does not depend on what stands on the lines behind it, nor on the numbers of its
own lines. So the statements of two scripts behind each other are those of the one and then those of
the other (`statements?_append`, `statements?_moved`).
-/

namespace Flipbook.Script

variable {place : Place} {tokens rest following later arguments : List Token}
variable {move back : Place → Place} {stated : List Statement}

/-! ### Other lines behind -/

theorem Apart.mono (apart : Apart tokens later) (inside : rest ⊆ tokens) : Apart rest later := by
  intro token member
  exact apart token (inside member)

theorem Takes.append {slot : Slot} {taken : Option Token} {value : slot.Value}
    (takes : Takes place following slot taken value)
    (apart : ∀ token ∈ later, token.place ≠ place) :
    Takes place (following ++ later) slot taken value := by
  cases takes with
  | required must fills => exact .required must fills
  | taken may here fills => exact .taken may here fills
  | omitted may next =>
    refine .omitted may ?_
    intro offered
    obtain ⟨token, head, kind, here⟩ := offered
    cases following with
    | nil => exact apart token (List.mem_of_mem_head? head) here
    | cons other rest => exact next ⟨token, head, kind, here⟩

theorem Reads.append {slots : List Slot} {values : Arguments slots}
    (reads : Reads place following slots arguments values)
    (apart : ∀ token ∈ later, token.place ≠ place) :
    Reads place (following ++ later) slots arguments values := by
  induction reads with
  | nil => exact .nil
  | cons takes more ih =>
    have first := takes.append apart
    rw [List.append_assoc] at first
    exact .cons first ih

theorem readSlots_append {slots : List Slot} {values : Arguments slots}
    (read : (readSlots place slots tokens).outcome = .ok (values, rest))
    (apart : ∀ token ∈ later, token.place ≠ place) :
    (readSlots place slots (tokens ++ later)).outcome = .ok (values, rest ++ later) := by
  obtain ⟨arguments, rfl, reads⟩ := readSlots_ok_iff.mp read
  exact readSlots_ok_iff.mpr ⟨arguments, List.append_assoc .., reads.append apart⟩

theorem subset_of_readSlots {slots : List Slot} {values : Arguments slots}
    (read : (readSlots place slots tokens).outcome = .ok (values, rest)) : rest ⊆ tokens := by
  obtain ⟨arguments, rfl, _⟩ := readSlots_ok_iff.mp read
  exact List.subset_append_right ..

/-- A script that can be read leaves the lines behind it to be read on their own. -/
theorem statements?_append (read : statements? tokens = some stated) (apart : Apart tokens later) :
    statements? (tokens ++ later) = (statements? later).map (stated ++ ·) := by
  induction tokens using segment_induction generalizing stated with
  | nil =>
    rw [statements?_nil] at read
    cases read
    simp
  | command token k rest starts ih =>
    obtain ⟨values, rest', more, filled, below, rfl⟩ :=
      (statements?_command_eq_some_iff starts).mp read
    have inside := List.subset_cons_of_subset token (subset_of_readSlots filled)
    have extended := readSlots_append filled (apart token List.mem_cons_self)
    rw [List.cons_append, statements?_command starts, extended]
    dsimp only
    rw [ih values rest' filled below (apart.mono inside), Option.map_map]
    rfl
  | plain token rest plain ih =>
    have inside := List.subset_cons_of_subset token
      (List.dropWhile_sublist (!·.isCommand) (l := rest)).subset
    rw [statements?_plain plain] at read
    rw [List.cons_append, statements?_plain plain, ← ih read (apart.mono inside),
      List.dropWhile_append]
    split
    · -- The run goes on into what follows.
      next empty => rw [List.isEmpty_iff.mp empty, List.nil_append, statements?_dropWhile]
    · rfl

theorem statements?_of_plain (plain : ∀ token ∈ tokens, token.isCommand = false) :
    statements? tokens = some [] := by
  have skipped : tokens.dropWhile (!·.isCommand) = [] := by
    simpa using plain
  rw [← statements?_dropWhile, skipped, statements?_nil]

/-! ### Other line numbers -/

theorem Takes.moved {slot : Slot} {taken : Option Token} {value : slot.Value}
    (takes : Takes place following slot taken value)
    (apart : ∀ token ∈ following, move token.place = move place → token.place = place) :
    Takes (move place) (following.map (Token.moved move)) slot (taken.map (Token.moved move))
      value := by
  have filled {token : Token} (fills : Fills slot token value) :
      Fills slot (token.moved move) value := by
    cases slot <;> exact fills
  cases takes with
  | required must fills => exact .required must (filled fills)
  | taken may here fills => exact .taken may (congrArg move here) (filled fills)
  | omitted may next =>
    refine .omitted may ?_
    intro offered
    obtain ⟨_, first, kind, here⟩ := offered
    rw [List.head?_map] at first
    obtain ⟨token, head, rfl⟩ := Option.map_eq_some_iff.mp first
    exact next ⟨token, head, kind, apart token (List.mem_of_mem_head? head) here⟩

theorem Reads.moved {slots : List Slot} {values : Arguments slots}
    (reads : Reads place following slots arguments values)
    (apart : ∀ token ∈ arguments ++ following, move token.place = move place →
      token.place = place) :
    Reads (move place) (following.map (Token.moved move)) slots
      (arguments.map (Token.moved move)) values := by
  induction reads with
  | nil => exact .nil
  | @cons slot slots taken value tokens values takes more ih =>
    have apart' : ∀ token ∈ tokens ++ following, move token.place = move place →
        token.place = place := by
      intro token member
      exact apart token (by rw [List.append_assoc]; exact List.mem_append_right _ member)
    have first := takes.moved apart'
    rw [List.map_append] at first ⊢
    rw [← Option.toList_map]
    exact .cons first (ih apart')

theorem readSlots_moved {slots : List Slot} {values : Arguments slots}
    (read : (readSlots place slots tokens).outcome = .ok (values, rest))
    (apart : ∀ token ∈ tokens, move token.place = move place → token.place = place) :
    (readSlots (move place) slots (tokens.map (Token.moved move))).outcome =
      .ok (values, rest.map (Token.moved move)) := by
  obtain ⟨arguments, rfl, reads⟩ := readSlots_ok_iff.mp read
  exact readSlots_ok_iff.mpr ⟨_, List.map_append, reads.moved apart⟩

/-- Moving keeps different lines of a script different. -/
def KeepsApart (move : Place → Place) (tokens : List Token) : Prop :=
  ∀ token ∈ tokens, ∀ other ∈ tokens, move token.place = move other.place →
    token.place = other.place

theorem KeepsApart.mono (keeps : KeepsApart move tokens) (inside : rest ⊆ tokens) :
    KeepsApart move rest := by
  intro token member other member'
  exact keeps token (inside member) other (inside member')

theorem statements?_moved_of_some (read : statements? tokens = some stated)
    (keeps : KeepsApart move tokens) :
    statements? (tokens.map (Token.moved move)) = some stated := by
  induction tokens using segment_induction generalizing stated with
  | nil => exact read
  | command token k rest starts ih =>
    obtain ⟨values, rest', more, filled, below, rfl⟩ :=
      (statements?_command_eq_some_iff starts).mp read
    have inside := List.subset_cons_of_subset token (subset_of_readSlots filled)
    have apart : ∀ other ∈ rest, move other.place = move token.place →
        other.place = token.place := by
      intro other member
      exact keeps other (List.mem_cons_of_mem _ member) token List.mem_cons_self
    have starts' : (token.moved move).kind = .command k := starts
    have later := ih values rest' filled below (keeps.mono inside)
    exact (statements?_command_eq_some_iff starts').mpr
      ⟨values, _, more, readSlots_moved filled apart, later, rfl⟩
  | plain token rest plain ih =>
    have inside := List.subset_cons_of_subset token
      (List.dropWhile_sublist (!·.isCommand) (l := rest)).subset
    have plain' : (token.moved move).isCommand = false := plain
    rw [statements?_plain plain] at read
    rw [List.map_cons, statements?_plain plain', List.dropWhile_map]
    exact ih read (keeps.mono inside)

/-- A script reads the same on any other lines, as long as the lines can be told apart. -/
theorem statements?_moved (undo : Function.LeftInverse back move) (tokens : List Token) :
    statements? (tokens.map (Token.moved move)) = statements? tokens := by
  refine Option.ext fun stated => ⟨fun read => ?_, fun read => ?_⟩
  · have keeps : KeepsApart back (tokens.map (Token.moved move)) := by
      intro _ member _ member' same
      obtain ⟨token, _, rfl⟩ := List.mem_map.mp member
      obtain ⟨other, _, rfl⟩ := List.mem_map.mp member'
      have places : token.place = other.place := by
        rw [← undo token.place, ← undo other.place]
        exact same
      exact congrArg move places
    have restored : (tokens.map (Token.moved move)).map (Token.moved back) = tokens := by
      rw [List.map_map]
      refine List.map_id'' (fun token => ?_) tokens
      show (⟨token.kind, token.text, back (move token.place)⟩ : Token) = token
      rw [undo]
    have unmoved := statements?_moved_of_some read keeps
    rwa [restored] at unmoved
  · refine statements?_moved_of_some read ?_
    intro token _ other _ same
    exact undo.injective same

theorem statements?_down (n : Nat) (tokens : List Token) :
    statements? (tokens.map (Token.moved (Place.down n))) = statements? tokens := by
  have undo : Function.LeftInverse (fun place : Place => ⟨place.origin, place.line - n⟩)
      (Place.down n) := by
    intro place
    simp [Place.down]
  exact statements?_moved undo tokens

end Flipbook.Script

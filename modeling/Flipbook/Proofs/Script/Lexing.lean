import Flipbook.Proofs.Script.Rows
import Flipbook.Proofs.Script.Shapes
import Mathlib.Tactic.IntervalCases

/-!
# Reading a line

A line is read as blanks and lexemes, up to its end, to a comment or to a character that starts no
lexeme. Each lexeme is the longest match of the first shape that has one at its place. So nothing of a
line is passed over, and there is only one way to read it (`Lexes.unique`, `lexemes_ok_iff`).
-/

namespace Flipbook.Text

variable {c : Char}

/-- The characters with which lexemes start and end. -/
def isOuter (c : Char) : Bool :=
  isDigit c || isFileChar c || c == '.'

theorem isDigit_of_isBlank (blank : isBlank c = true) : isDigit c = false := by
  unfold isBlank at blank
  unfold isDigit
  generalize c.toNat = n at blank
  simp only [Bool.or_eq_true, Bool.and_eq_true, decide_eq_true_eq, beq_iff_eq] at blank
  have cases : 0x09 ≤ n ∧ n ≤ 0x0D ∨ 0x2000 ≤ n ∧ n ≤ 0x200A ∨ n ∈ [0x20, 0x85, 0xA0, 0x1680,
      0x2028, 0x2029, 0x202F, 0x205F, 0x3000] := by
    simp only [List.mem_cons, List.not_mem_nil, or_false]
    omega
  clear blank
  rcases cases with ⟨low, high⟩ | ⟨low, high⟩ | single
  · interval_cases n <;> rfl
  · interval_cases n <;> rfl
  · revert n
    decide

theorem toNat_of_isFileChar (inside : isFileChar c = true) : 0x2D ≤ c.toNat ∧ c.toNat < 0x80 := by
  unfold isFileChar at inside
  delta Char.isAlphanum Char.isAlpha Char.isUpper Char.isLower Char.isDigit at inside
  simp only [Bool.or_eq_true, Bool.and_eq_true, decide_eq_true_eq, ge_iff_le,
    UInt32.le_iff_toNat_le, beq_iff_eq] at inside
  rcases inside with (((range | range) | range) | rfl) | rfl
  · simp at range
    omega
  · simp at range
    omega
  · simp at range
    omega
  · decide
  · decide

theorem isBlank_of_isOuter (outer : isOuter c = true) : isBlank c = false := by
  rw [← Bool.not_eq_true]
  intro blank
  simp only [isOuter, Bool.or_eq_true, beq_iff_eq] at outer
  rcases outer with (digit | inside) | rfl
  · rw [isDigit_of_isBlank blank] at digit
    cases digit
  · have bounds := toNat_of_isFileChar inside
    simp only [isBlank, Bool.or_eq_true, Bool.and_eq_true, decide_eq_true_eq, beq_iff_eq] at blank
    omega
  · exact absurd blank (by decide)

theorem ne_slash_of_isOuter (outer : isOuter c = true) : c ≠ '/' := by
  rintro rfl
  exact absurd outer (by decide)

theorem isOuter_of_isDigit (digit : isDigit c = true) : isOuter c = true := by
  simp [isOuter, digit]

theorem isOuter_of_isFileChar (inside : isFileChar c = true) : isOuter c = true := by
  simp [isOuter, inside]

theorem isFileChar_of_isAlphanumeric (inside : isAlphanumeric c = true) : isFileChar c = true := by
  unfold isAlphanumeric at inside
  simp [isFileChar, inside]

theorem isFileChar_of_isNameChar (inside : isNameChar c = true) : isFileChar c = true := by
  unfold isNameChar at inside
  simp only [isFileChar, inside, Bool.true_or]

theorem isNameChar_of_isNameStart (first : isNameStart c = true) : isNameChar c = true := by
  unfold isNameStart at first
  unfold isNameChar Char.isAlphanum
  rcases Bool.or_eq_true _ _ |>.mp first with letter | underscore
  · simp [letter]
  · simp [underscore]

theorem isDigit_of_isNameStart (first : isNameStart c = true) : isDigit c = false := by
  have runs : ∀ run ∈ digitRuns, run.1 + run.2 ≤ 0x3A ∨ 0x660 ≤ run.1 := by decide
  have letters : 0x41 ≤ c.toNat ∧ c.toNat < 0x80 := by
    unfold isNameStart at first
    delta Char.isAlpha Char.isUpper Char.isLower at first
    simp only [Bool.or_eq_true, Bool.and_eq_true, decide_eq_true_eq, ge_iff_le,
      UInt32.le_iff_toNat_le, beq_iff_eq] at first
    rcases first with (range | range) | rfl
    · simp at range
      omega
    · simp at range
      omega
    · decide
  rw [isDigit, List.any_eq_false]
  intro run member
  have apart := runs run member
  simp only [Bool.and_eq_true, decide_eq_true_eq]
  omega

end Flipbook.Text

namespace Flipbook.Script

open Text Pattern

variable {cs text rest more blanks : List Char} {c : Char} {l : Lexeme} {ls : List Lexeme}

/-- The shape of the tokens of a kind. -/
def TokenKind.shape : TokenKind → Language Char
  | .number => numberShape
  | .path => pathShape
  | .command _ | .axis | .name | .easing => wordShape

/-- The lexeme that a text begins with: the longest match of the first shape that has one. -/
inductive Lexeme.Begins (cs : List Char) : Lexeme → Prop
  | number {text : List Char} (longest : Longest numberShape cs text) : Begins cs ⟨.number, text⟩
  | path {text : List Char} (noNumber : NoMatch numberShape cs) (longest : Longest pathShape cs text) :
      Begins cs ⟨.path, text⟩
  | word {text : List Char} (noNumber : NoMatch numberShape cs) (noPath : NoMatch pathShape cs)
      (longest : Longest wordShape cs text) : Begins cs ⟨wordKind (.ofList text), text⟩

/-- No lexeme begins a text. -/
def Bare (cs : List Char) : Prop :=
  NoMatch numberShape cs ∧ NoMatch pathShape cs ∧ NoMatch wordShape cs

theorem Lexeme.first?_eq (cs : List Char) : first? cs =
    if number cs ≠ [] then some ⟨.number, number cs⟩
    else if path cs ≠ [] then some ⟨.path, path cs⟩
    else if word cs ≠ [] then some ⟨wordKind (.ofList (word cs)), word cs⟩
    else none := by
  unfold first?
  cases number cs with
  | cons => rfl
  | nil =>
    cases path cs with
    | cons => rfl
    | nil => cases word cs <;> rfl

theorem Lexeme.first?_eq_some_iff (single : '\n' ∉ cs) : first? cs = some l ↔ l.Begins cs := by
  have number := number_munches cs
  have path := path_munches single
  have word := word_munches cs
  rw [first?_eq]
  constructor
  · intro found
    split at found
    · next filled =>
      cases found
      exact .number ((number.longest_iff nil_not_mem_numberShape).mpr ⟨rfl, filled⟩)
    · next noNumber =>
      have noNumber' := (number.eq_nil_iff nil_not_mem_numberShape).mp (not_not.mp noNumber)
      split at found
      · next filled =>
        cases found
        exact .path noNumber' ((path.longest_iff nil_not_mem_pathShape).mpr ⟨rfl, filled⟩)
      · next noPath =>
        have noPath' := (path.eq_nil_iff nil_not_mem_pathShape).mp (not_not.mp noPath)
        split at found
        · next filled =>
          cases found
          exact .word noNumber' noPath' ((word.longest_iff nil_not_mem_wordShape).mpr ⟨rfl, filled⟩)
        · cases found
  · intro begins
    cases begins with
    | number longest =>
      obtain ⟨rfl, filled⟩ := (number.longest_iff nil_not_mem_numberShape).mp longest
      rw [if_pos filled]
    | path noNumber longest =>
      obtain ⟨rfl, filled⟩ := (path.longest_iff nil_not_mem_pathShape).mp longest
      have noNumber' := (number.eq_nil_iff nil_not_mem_numberShape).mpr noNumber
      rw [if_neg (not_not.mpr noNumber'), if_pos filled]
    | word noNumber noPath longest =>
      obtain ⟨rfl, filled⟩ := (word.longest_iff nil_not_mem_wordShape).mp longest
      have noNumber' := (number.eq_nil_iff nil_not_mem_numberShape).mpr noNumber
      have noPath' := (path.eq_nil_iff nil_not_mem_pathShape).mpr noPath
      rw [if_neg (not_not.mpr noNumber'), if_neg (not_not.mpr noPath'), if_pos filled]

theorem Lexeme.first?_eq_none_iff (single : '\n' ∉ cs) : first? cs = none ↔ Bare cs := by
  have number := (number_munches cs).eq_nil_iff nil_not_mem_numberShape
  have path := (path_munches single).eq_nil_iff nil_not_mem_pathShape
  have word := (word_munches cs).eq_nil_iff nil_not_mem_wordShape
  unfold Bare
  rw [first?_eq, ← number, ← path, ← word]
  split
  · next filled => simp [filled]
  · split
    · next filled => simp [filled]
    · split
      · next filled => simp [filled]
      · simp_all

/-! ### Reserved words -/

theorem plain_of_reserved {word : String} {kind : TokenKind} (reserved : (word, kind) ∈ reservedWords) :
    kind ≠ .number ∧ kind ≠ .path ∧ kind ≠ .name := by
  have all : ∀ entry ∈ reservedWords,
      entry.2 ≠ .number ∧ entry.2 ≠ .path ∧ entry.2 ≠ .name := by decide
  exact all (word, kind) reserved

theorem reserved_of_lookup {word : String} {kind : TokenKind}
    (found : reservedWords.lookup word = some kind) : (word, kind) ∈ reservedWords := by
  obtain ⟨before, after, same, _⟩ := List.lookup_eq_some_iff.mp found
  rw [same]
  exact List.mem_append_right before List.mem_cons_self

/-- A word is a name if the table lacks it, and otherwise what the table says. -/
theorem lookup_wordKind (word : String) : reservedWords.lookup word =
    if wordKind word = .name then none else some (wordKind word) := by
  unfold wordKind
  cases found : reservedWords.lookup word with
  | none => rfl
  | some kind => exact (if_neg (plain_of_reserved (reserved_of_lookup found)).2.2).symm

theorem shape_wordKind (word : String) : (wordKind word).shape = wordShape := by
  unfold wordKind
  cases found : reservedWords.lookup word with
  | none => rfl
  | some kind =>
    obtain ⟨noNumber, noPath, _⟩ := plain_of_reserved (reserved_of_lookup found)
    cases kind with
    | number => exact absurd rfl noNumber
    | path => exact absurd rfl noPath
    | _ => rfl

/-! ### The characters of a lexeme -/

theorem mem_magnitude_chars (fits : text ∈ magnitudeShape) :
    ∀ c ∈ text, isDigit c = true ∨ c = '.' := by
  intro c member
  rcases mem_magnitudeShape.mp fits with digits | ⟨whole, fraction, rfl, digits, digits', -⟩
  · exact .inl ((mem_run.mp digits).2 c member)
  · rcases List.mem_append.mp member with inside | inside
    · exact .inl (digits c inside)
    · rcases List.mem_cons.mp inside with rfl | inside
      · exact .inr rfl
      · exact .inl (digits' c inside)

theorem mem_number_chars (fits : text ∈ numberShape) :
    ∀ c ∈ text, isDigit c = true ∨ c = '.' ∨ c = '-' := by
  intro c member
  rcases mem_numberShape.mp fits with magnitude | ⟨digits, magnitude, rfl⟩
  · exact (mem_magnitude_chars magnitude c member).imp_right .inl
  · rcases List.mem_cons.mp member with rfl | inside
    · exact .inr (.inr rfl)
    · exact (mem_magnitude_chars magnitude c inside).imp_right .inl

theorem mem_word_chars (fits : text ∈ wordShape) : ∀ c ∈ text, isNameChar c = true := by
  obtain ⟨first, rest, rfl, start, inside⟩ := mem_wordShape.mp fits
  intro c member
  rcases List.mem_cons.mp member with rfl | member
  · exact isNameChar_of_isNameStart start
  · exact inside c member

theorem isOuter_of_mem_shape {kind : TokenKind} (other : kind ≠ .path) (fits : text ∈ kind.shape) :
    ∀ c ∈ text, isOuter c = true := by
  have word (fits : text ∈ wordShape) : ∀ c ∈ text, isOuter c = true := by
    intro c member
    apply isOuter_of_isFileChar
    apply isFileChar_of_isNameChar
    exact mem_word_chars fits c member
  cases kind with
  | number =>
    intro c member
    rcases mem_number_chars fits c member with digit | rfl | rfl
    · exact isOuter_of_isDigit digit
    · decide
    · decide
  | path => exact absurd rfl other
  | _ => exact word fits

theorem nil_not_mem_shape (kind : TokenKind) : [] ∉ kind.shape := by
  cases kind with
  | number => exact nil_not_mem_numberShape
  | path => exact nil_not_mem_pathShape
  | _ => exact nil_not_mem_wordShape

theorem head_of_shape (kind : TokenKind) (fits : text ∈ kind.shape) :
    ∃ c rest, text = c :: rest ∧ isOuter c = true := by
  by_cases path : kind = .path
  · rw [path] at fits
    obtain ⟨c, rest, same, first⟩ := path_head fits
    refine ⟨c, rest, same, ?_⟩
    rcases first with rfl | inside
    · decide
    · exact isOuter_of_isFileChar inside
  · cases text with
    | nil => exact absurd fits (nil_not_mem_shape kind)
    | cons c rest => exact ⟨c, rest, rfl, isOuter_of_mem_shape path fits c List.mem_cons_self⟩

theorem last_of_shape (kind : TokenKind) (fits : text ∈ kind.shape) :
    ∃ front c, text = front ++ [c] ∧ isOuter c = true := by
  by_cases path : kind = .path
  · rw [path] at fits
    obtain ⟨front, c, same, last⟩ := path_last fits
    exact ⟨front, c, same, isOuter_of_isFileChar (isFileChar_of_isAlphanumeric last)⟩
  · rcases List.eq_nil_or_concat' text with rfl | ⟨front, c, rfl⟩
    · exact absurd fits (nil_not_mem_shape kind)
    · have member : c ∈ front ++ [c] := List.mem_append_right front (List.mem_singleton_self c)
      exact ⟨front, c, rfl, isOuter_of_mem_shape path fits c member⟩

theorem Lexeme.Begins.fits (begins : l.Begins cs) : l.text ∈ l.kind.shape := by
  cases begins with
  | number longest => exact longest.fits
  | path _ longest => exact longest.fits
  | word _ _ longest =>
    rw [shape_wordKind]
    exact longest.fits

theorem Lexeme.Begins.starts (begins : l.Begins cs) : l.text <+: cs := by
  cases begins with
  | number longest => exact longest.starts
  | path _ longest => exact longest.starts
  | word _ _ longest => exact longest.starts

theorem Lexeme.Begins.head (begins : l.Begins cs) :
    ∃ c rest, l.text = c :: rest ∧ isOuter c = true :=
  head_of_shape l.kind begins.fits

/-- A number and a path have a character that no word has. -/
theorem Lexeme.Begins.kind_of_word (begins : l.Begins cs) (word : l.text ∈ wordShape) :
    l.kind = wordKind (.ofList l.text) := by
  cases begins with
  | number longest =>
    obtain ⟨first, rest, rfl, start, _⟩ := mem_wordShape.mp word
    rcases mem_number_chars longest.fits first List.mem_cons_self with digit | rfl | rfl
    · rw [isDigit_of_isNameStart start] at digit
      cases digit
    · exact absurd start (by decide)
    · exact absurd start (by decide)
  | path _ longest =>
    have inside := mem_word_chars word '.' (point_mem_of_path longest.fits)
    exact absurd inside (by decide)
  | word => rfl

/-! ### The lexemes of a line -/

/-- A text read from its start: blanks and then a lexeme, as often as there are lexemes, and blanks
again. All blanks that stand together are read. -/
inductive Lexes : List Char → List Lexeme → List Char → Prop
  | done {blanks rest : List Char} (blank : ∀ c ∈ blanks, isBlank c = true)
      (stop : ∀ c ∈ rest.head?, isBlank c = false) : Lexes (blanks ++ rest) [] rest
  | lexeme {blanks cs rest : List Char} {l : Lexeme} {ls : List Lexeme}
      (blank : ∀ c ∈ blanks, isBlank c = true) (begins : l.Begins (l.text ++ cs))
      (later : Lexes cs ls rest) : Lexes (blanks ++ (l.text ++ cs)) (l :: ls) rest

/-- What is left of a line is nothing or a comment. -/
def Ended (rest : List Char) : Prop :=
  rest = [] ∨ ['/', '/'] <+: rest

/-- What is left of a line starts with neither a comment nor a lexeme. -/
structure Stuck (rest : List Char) : Prop where
  filled : rest ≠ []
  noComment : ¬ ['/', '/'] <+: rest
  bare : Bare rest

theorem lexemes_blank (blank : isBlank c = true) (cs : List Char) :
    lexemes (c :: cs) = lexemes cs := by
  rw [lexemes.eq_def]
  split
  · next empty => cases empty
  · next comment =>
    cases comment
    exact absurd blank (by decide)
  · next same =>
    cases same
    rw [if_pos blank]

theorem lexemes_blanks (blank : ∀ c ∈ blanks, isBlank c = true) :
    lexemes (blanks ++ cs) = lexemes cs := by
  induction blanks with
  | nil => rfl
  | cons c blanks ih =>
    rw [List.cons_append, lexemes_blank (blank c List.mem_cons_self)]
    exact ih fun d member => blank d (List.mem_cons_of_mem c member)

theorem lexemes_comment (comment : ['/', '/'] <+: rest) : lexemes rest = .ok [] := by
  obtain ⟨tail, rfl⟩ := comment
  rw [lexemes.eq_def]
  rfl

theorem lexemes_ended (ended : Ended rest) : lexemes rest = .ok [] := by
  rcases ended with rfl | comment
  · exact lexemes_nil
  · exact lexemes_comment comment

theorem lexemes_stuck (single : '\n' ∉ c :: more) (stuck : Stuck (c :: more))
    (stop : isBlank c = false) : lexemes (c :: more) = .error c := by
  rw [lexemes.eq_def]
  split
  · next empty => cases empty
  · next tail comment =>
    rw [comment] at stuck
    exact absurd ⟨tail, rfl⟩ stuck.noComment
  · next same =>
    cases same
    rw [stop, if_neg (by decide)]
    split
    · next starts =>
      rw [(Lexeme.first?_eq_none_iff single).mpr stuck.bare] at starts
      cases starts
    · rfl

theorem lexemes_begins (single : '\n' ∉ l.text ++ cs) (begins : l.Begins (l.text ++ cs)) :
    lexemes (l.text ++ cs) = (lexemes cs).map (l :: ·) := by
  have found := (Lexeme.first?_eq_some_iff single).mpr begins
  obtain ⟨c, rest, same, outer⟩ := begins.head
  have left : (l.text ++ cs).drop l.text.length = cs := List.drop_left
  have head : l.text ++ cs = c :: (rest ++ cs) := by rw [same, List.cons_append]
  rw [head] at found left ⊢
  rw [lexemes.eq_def]
  split
  · next empty => cases empty
  · next comment => exact absurd (List.cons.inj comment).1 (ne_slash_of_isOuter outer)
  · next same =>
    cases same
    rw [isBlank_of_isOuter outer, if_neg (by decide)]
    split
    · next other =>
      rw [found] at other
      cases other
      rw [left]
    · next stopped =>
      rw [found] at stopped
      cases stopped

/-- No lexeme begins a text. -/
def Closed (rest : List Char) : Prop :=
  ∀ l : Lexeme, ¬ l.Begins rest

theorem closed_of_ended (ended : Ended rest) : Closed rest := by
  intro l begins
  obtain ⟨c, tail, same, outer⟩ := begins.head
  obtain ⟨after, begun⟩ := begins.starts
  rw [same] at begun
  rcases ended with rfl | ⟨comment, rfl⟩
  · cases begun
  · have slash : c = '/' := (List.cons.inj begun).1
    exact ne_slash_of_isOuter outer slash

theorem closed_of_stuck (stuck : Stuck rest) : Closed rest := by
  obtain ⟨noNumber, noPath, noWord⟩ := stuck.bare
  intro l begins
  cases begins with
  | number longest => exact noNumber _ longest.fits longest.starts
  | path _ longest => exact noPath _ longest.fits longest.starts
  | word _ _ longest => exact noWord _ longest.fits longest.starts

theorem dropWhile_blanks (blank : ∀ c ∈ blanks, isBlank c = true)
    (stop : ∀ c ∈ rest.head?, isBlank c = false) : (blanks ++ rest).dropWhile isBlank = rest := by
  rw [List.dropWhile_append_of_pos blank]
  cases rest with
  | nil => rfl
  | cons c rest =>
    have outer := stop c rfl
    exact List.dropWhile_cons_of_neg (by simp [outer])

theorem Lexeme.Begins.stop (begins : l.Begins cs) : ∀ c ∈ cs.head?, isBlank c = false := by
  obtain ⟨c, tail, same, outer⟩ := begins.head
  obtain ⟨after, rfl⟩ := begins.starts
  rw [same]
  intro d first
  cases first
  exact isBlank_of_isOuter outer

namespace Lexes

theorem stop (lexes : Lexes cs ls rest) : ∀ c ∈ rest.head?, isBlank c = false := by
  induction lexes with
  | done _ stop => exact stop
  | lexeme _ _ _ ih => exact ih

theorem suffix (lexes : Lexes cs ls rest) : rest <:+ cs := by
  induction lexes with
  | @done blanks rest => exact List.suffix_append blanks rest
  | lexeme _ _ _ ih => exact (ih.trans (List.suffix_append ..)).trans (List.suffix_append ..)

/-- What is read first is the same for all that follows. -/
theorem lexemes_eq (lexes : Lexes cs ls rest) (single : '\n' ∉ cs) :
    lexemes cs = (lexemes rest).map (ls ++ ·) := by
  induction lexes with
  | done blank =>
    rw [lexemes_blanks blank]
    cases lexemes _ <;> rfl
  | lexeme blank begins _ ih =>
    have single' := fun member => single (List.mem_append_right _ member)
    rw [lexemes_blanks blank, lexemes_begins single' begins,
      ih fun member => single' (List.mem_append_right _ member)]
    cases lexemes _ <;> rfl

/-- A text can only be read on behind its blanks. -/
theorem eq_or_next (lexes : Lexes cs ls rest) :
    ls = [] ∧ rest = cs.dropWhile isBlank ∨
      ∃ l later tail, ls = l :: later ∧ cs.dropWhile isBlank = l.text ++ tail ∧
        l.Begins (l.text ++ tail) ∧ Lexes tail later rest := by
  cases lexes with
  | done blank stop => exact .inl ⟨rfl, (dropWhile_blanks blank stop).symm⟩
  | lexeme blank begins later =>
    exact .inr ⟨_, _, _, rfl, dropWhile_blanks blank begins.stop, begins, later⟩

/-- There is one way to read a text as far as it can be read. -/
theorem unique {ls' : List Lexeme} {rest' : List Char} (lexes : Lexes cs ls rest)
    (lexes' : Lexes cs ls' rest') (single : '\n' ∉ cs) (closed : Closed rest)
    (closed' : Closed rest') : ls' = ls ∧ rest' = rest := by
  induction lexes generalizing ls' with
  | done blank stop =>
    have here := dropWhile_blanks blank stop
    rcases lexes'.eq_or_next with ⟨rfl, rfl⟩ | ⟨l, later, tail, rfl, same, begins, _⟩
    · exact ⟨rfl, here⟩
    · rw [← same, here] at begins
      exact absurd begins (closed l)
  | @lexeme blanks cs rest l ls blank begins later ih =>
    have here := dropWhile_blanks blank begins.stop
    have single' : '\n' ∉ l.text ++ cs := fun member => single (List.mem_append_right _ member)
    rcases lexes'.eq_or_next with ⟨rfl, rfl⟩ | ⟨l', later', tail, rfl, same, begins', lexes'⟩
    · rw [here] at closed'
      exact absurd begins (closed' l)
    · rw [here] at same
      have found := (Lexeme.first?_eq_some_iff single').mpr begins
      rw [same, (Lexeme.first?_eq_some_iff (same ▸ single')).mpr begins'] at found
      cases found
      cases List.append_cancel_left same
      obtain ⟨rfl, rfl⟩ := ih lexes' (fun member => single' (List.mem_append_right _ member)) closed
      exact ⟨rfl, rfl⟩

end Lexes

theorem exists_lexes (cs : List Char) (single : '\n' ∉ cs) :
    ∃ ls rest, Lexes cs ls rest ∧ (Ended rest ∨ Stuck rest) := by
  have parts := List.takeWhile_append_dropWhile (p := isBlank) (l := cs)
  have blank : ∀ c ∈ cs.takeWhile isBlank, isBlank c = true := fun c => List.mem_takeWhile_imp
  have stop : ∀ c ∈ (cs.dropWhile isBlank).head?, isBlank c = false := by
    intro c first
    simpa [Option.mem_def.mp first] using List.head?_dropWhile_not isBlank cs
  have single' : '\n' ∉ cs.dropWhile isBlank := by
    intro member
    exact single ((List.dropWhile_suffix _).subset member)
  -- Behind the blanks the text is over, or it goes on with a lexeme or with neither.
  have done := Lexes.done blank stop
  rw [parts] at done
  by_cases ended : Ended (cs.dropWhile isBlank)
  · exact ⟨_, _, done, .inl ended⟩
  cases found : Lexeme.first? (cs.dropWhile isBlank) with
  | none =>
    have bare := (Lexeme.first?_eq_none_iff single').mp found
    exact ⟨_, _, done, .inr ⟨fun e => ended (.inl e), fun e => ended (.inr e), bare⟩⟩
  | some l =>
    have begins := (Lexeme.first?_eq_some_iff single').mp found
    obtain ⟨tail, same⟩ := begins.starts
    rw [← same] at begins single' parts
    have shorter : tail.length < cs.length := by
      have filled := List.length_pos_iff.mpr (Lexeme.text_ne_nil found)
      rw [← parts]
      simp only [List.length_append]
      omega
    obtain ⟨ls, rest, later, ends⟩ :=
      exists_lexes tail fun member => single' (List.mem_append_right _ member)
    have lexes := Lexes.lexeme blank begins later
    rw [parts] at lexes
    exact ⟨_, _, lexes, ends⟩
termination_by cs.length

theorem lexemes_of_ended (lexes : Lexes cs ls rest) (single : '\n' ∉ cs) (ended : Ended rest) :
    lexemes cs = .ok ls := by
  rw [lexes.lexemes_eq single, lexemes_ended ended]
  exact congrArg Except.ok ls.append_nil

theorem lexemes_of_stuck (lexes : Lexes cs ls (c :: more)) (single : '\n' ∉ cs)
    (stuck : Stuck (c :: more)) : lexemes cs = .error c := by
  have single' : '\n' ∉ c :: more := fun member => single (lexes.suffix.subset member)
  rw [lexes.lexemes_eq single, lexemes_stuck single' stuck (lexes.stop c rfl)]
  rfl

theorem lexemes_ok_iff (single : '\n' ∉ cs) :
    lexemes cs = .ok ls ↔ ∃ rest, Lexes cs ls rest ∧ Ended rest := by
  constructor
  · intro read
    obtain ⟨ls', rest, lexes, ended | stuck⟩ := exists_lexes cs single
    · rw [lexemes_of_ended lexes single ended] at read
      cases read
      exact ⟨rest, lexes, ended⟩
    · obtain ⟨c, more, rfl⟩ := List.exists_cons_of_ne_nil stuck.filled
      rw [lexemes_of_stuck lexes single stuck] at read
      cases read
  · rintro ⟨rest, lexes, ended⟩
    exact lexemes_of_ended lexes single ended

theorem lexemes_error_iff (single : '\n' ∉ cs) :
    lexemes cs = .error c ↔ ∃ ls more, Lexes cs ls (c :: more) ∧ Stuck (c :: more) := by
  constructor
  · intro failed
    obtain ⟨ls, rest, lexes, ended | stuck⟩ := exists_lexes cs single
    · rw [lexemes_of_ended lexes single ended] at failed
      cases failed
    · obtain ⟨d, more, rfl⟩ := List.exists_cons_of_ne_nil stuck.filled
      rw [lexemes_of_stuck lexes single stuck] at failed
      cases failed
      exact ⟨ls, more, lexes, stuck⟩
  · rintro ⟨ls, more, lexes, stuck⟩
    exact lexemes_of_stuck lexes single stuck

end Flipbook.Script

import Flipbook.Script.Lexeme
import Flipbook.Trace

/-!
# Rows of tokens

The tokens of a text come line by line. Where a line ends is a matter of its line feed only: a
carriage return in front of one is a blank, and no blank at the end of a line makes a token. So the
tokens of two texts with a line feed between them are those of the first text, and then those of the
second further down (`tokenize_append_ok_iff`).
-/

namespace Flipbook.Text

variable {line cs : List Char} {c : Char}

theorem lines_cons (plain : '\n' ≠ c) (noPair : ∀ rest, c = '\r' → cs ≠ '\n' :: rest) :
    lines (c :: cs) = match lines cs with
      | [] => [[c]]
      | line :: more => (c :: line) :: more :=
  lines.eq_4 c cs (plain ·.symm) noPair

theorem lines_of_not_mem (single : '\n' ∉ line) :
    lines line = if line = [] then [] else [line] := by
  induction line with
  | nil => rfl
  | cons c cs ih =>
    obtain ⟨plain, single⟩ : '\n' ≠ c ∧ '\n' ∉ cs := by simpa using single
    have noPair : ∀ rest, c = '\r' → cs ≠ '\n' :: rest := by
      rintro rest - rfl
      exact single List.mem_cons_self
    rw [lines_cons plain noPair, ih single]
    cases cs <;> rfl

/-- A line feed and the character before a line make a pair only if the line is empty. -/
theorem noPair_of_not_mem (single : '\n' ∉ cs) (returns : ¬ (c = '\r' ∧ cs = []))
    (rest : List Char) : ∀ rest', c = '\r' → cs ++ '\n' :: rest ≠ '\n' :: rest' := by
  intro rest' isReturn starts
  cases cs with
  | nil => exact returns ⟨isReturn, rfl⟩
  | cons d cs =>
    cases starts
    exact single List.mem_cons_self

theorem lines_append_of_not_mem (single : '\n' ∉ cs) (rest : List Char) :
    ∃ line, lines (cs ++ '\n' :: rest) = line :: lines rest ∧ (cs = line ∨ cs = line ++ ['\r']) := by
  induction cs with
  | nil => exact ⟨[], rfl, .inl rfl⟩
  | cons c cs ih =>
    obtain ⟨plain, single⟩ : '\n' ≠ c ∧ '\n' ∉ cs := by simpa using single
    by_cases returns : c = '\r' ∧ cs = []
    · obtain ⟨rfl, rfl⟩ := returns
      exact ⟨[], rfl, .inr rfl⟩
    · have noPair := noPair_of_not_mem single returns rest
      obtain ⟨line, split, same⟩ := ih single
      refine ⟨c :: line, ?_, ?_⟩
      · rw [List.cons_append, lines_cons plain noPair, split]
      · rcases same with rfl | rfl
        · exact .inl rfl
        · exact .inr rfl

/-- Induction along the lines of a text. -/
theorem line_induction {motive : List Char → Prop}
    (last : ∀ line, '\n' ∉ line → motive line)
    (more : ∀ line rest, '\n' ∉ line → motive rest → motive (line ++ '\n' :: rest))
    (cs : List Char) : motive cs := by
  by_cases ends : '\n' ∈ cs
  · obtain ⟨line, rest, same, single⟩ := List.eq_append_cons_of_mem ends
    have shorter : rest.length < cs.length := by
      rw [same]
      simp
      omega
    rw [same]
    exact more line rest single (line_induction last more rest)
  · exact last cs ends
termination_by cs.length

theorem subset_of_mem_lines {line : List Char} (member : line ∈ lines cs) : line ⊆ cs := by
  induction cs using line_induction with
  | last whole single =>
    rw [lines_of_not_mem single] at member
    split at member
    · cases member
    · rw [List.mem_singleton.mp member]
      exact List.Subset.refl _
  | more whole rest single ih =>
    obtain ⟨first, split, same⟩ := lines_append_of_not_mem single rest
    rw [split] at member
    rcases List.mem_cons.mp member with rfl | member
    · rcases same with rfl | rfl
      · exact List.subset_append_left _ _
      · rw [List.append_assoc]
        exact List.subset_append_left _ _
    · exact fun c inside => List.mem_append_right _ (List.mem_cons_of_mem _ (ih member inside))

theorem trim_concat_blank (blank : isBlank c = true) : trim (line ++ [c]) = trim line := by
  rw [trim, trim, List.dropWhile_append]
  split
  · next empty =>
    simp [List.isEmpty_iff.mp empty, blank]
  · rw [List.reverse_append, List.reverse_singleton, List.singleton_append,
      List.dropWhile_cons_of_pos blank]

end Flipbook.Text

namespace Flipbook.Script

open Text

variable {origin : String} {n : Nat} {place : Place} {rows : List (List Char)}
variable {line cs : List Char} {tokens : List Token}

/-- The tokens of lines, of which the first has the number `n`. -/
def rowTokens (origin : String) (n : Nat) (rows : List (List Char)) :
    Except LexicalError (List Token) := do
  let rows ← (rows.zipIdx n).mapM fun row => lineTokens ⟨origin, row.2⟩ row.1
  return rows.flatten

theorem rowTokens_nil : rowTokens origin n [] = .ok [] := rfl

theorem rowTokens_cons_ok_iff : rowTokens origin n (line :: rows) = .ok tokens ↔
    ∃ first rest, lineTokens ⟨origin, n⟩ line = .ok first ∧
      rowTokens origin (n + 1) rows = .ok rest ∧ tokens = first ++ rest := by
  rw [rowTokens, rowTokens, List.zipIdx_cons, List.mapM_cons]
  constructor
  · intro read
    obtain ⟨all, read, done⟩ := exists_of_bind_ok read
    obtain ⟨first, here, read⟩ := exists_of_bind_ok read
    obtain ⟨later, more, same⟩ := exists_of_bind_ok read
    cases same
    cases done
    exact ⟨first, later.flatten, here, by rw [more]; rfl, rfl⟩
  · rintro ⟨first, rest, here, more, rfl⟩
    obtain ⟨later, read, done⟩ := exists_of_bind_ok more
    cases done
    rw [here, read]
    rfl

theorem lineTokens_concat_blank {c : Char} (blank : isBlank c = true) :
    lineTokens place (line ++ [c]) = lineTokens place line := by
  rw [lineTokens, lineTokens, trim_concat_blank blank]

theorem lexemes_nil : lexemes [] = .ok [] := by
  rw [lexemes.eq_def]

theorem lineTokens_nil : lineTokens place [] = .ok [] := by
  have blank : trim [] = [] := rfl
  rw [lineTokens, blank, lexemes_nil]
  rfl

theorem rowTokens_line (single : '\n' ∉ line) :
    rowTokens origin n (lines line) = .ok tokens ↔ lineTokens ⟨origin, n⟩ line = .ok tokens := by
  rw [lines_of_not_mem single]
  split
  · next empty =>
    rw [empty, lineTokens_nil, rowTokens_nil]
  · rw [rowTokens_cons_ok_iff]
    simp [rowTokens_nil, eq_comm]

theorem rowTokens_line_append (single : '\n' ∉ line) :
    rowTokens origin n (lines (line ++ '\n' :: cs)) = .ok tokens ↔
      ∃ first rest, lineTokens ⟨origin, n⟩ line = .ok first ∧
        rowTokens origin (n + 1) (lines cs) = .ok rest ∧ tokens = first ++ rest := by
  obtain ⟨ended, split, same⟩ := lines_append_of_not_mem single cs
  have read : lineTokens ⟨origin, n⟩ line = lineTokens ⟨origin, n⟩ ended := by
    rcases same with rfl | rfl
    · rfl
    · exact lineTokens_concat_blank (by decide)
  rw [split, rowTokens_cons_ok_iff, read]

/-- The number of lines that a text takes up when a line feed follows it. -/
def height (cs : List Char) : Nat :=
  cs.count '\n' + 1

theorem height_line (single : '\n' ∉ line) : height line = 1 := by
  rw [height, List.count_eq_zero_of_not_mem single]

theorem height_line_append (single : '\n' ∉ line) (cs : List Char) :
    height (line ++ '\n' :: cs) = height cs + 1 := by
  simp [height, List.count_eq_zero_of_not_mem single]

/-- The second text starts on the line behind the line feed. -/
theorem rowTokens_append_ok_iff (cs rest : List Char) :
    rowTokens origin n (lines (cs ++ '\n' :: rest)) = .ok tokens ↔
      ∃ first second, rowTokens origin n (lines cs) = .ok first ∧
        rowTokens origin (n + height cs) (lines rest) = .ok second ∧ tokens = first ++ second := by
  induction cs using line_induction generalizing n tokens with
  | last line single =>
    simp only [rowTokens_line_append single, rowTokens_line single, height_line single]
  | more line cs single ih =>
    have lower : n + 1 + height cs = n + height (line ++ '\n' :: cs) := by
      rw [height_line_append single]
      omega
    simp only [List.append_assoc, List.cons_append, rowTokens_line_append single, ih, lower]
    constructor
    · rintro ⟨here, _, read, ⟨first, second, above, below, rfl⟩, rfl⟩
      exact ⟨here ++ first, second, ⟨here, first, read, above, rfl⟩, below,
        (List.append_assoc ..).symm⟩
    · rintro ⟨_, second, ⟨here, first, read, above, rfl⟩, below, rfl⟩
      exact ⟨here, first ++ second, read, ⟨first, second, above, below, rfl⟩,
        List.append_assoc ..⟩

/-! ### Moving down -/

def Place.down (n : Nat) (place : Place) : Place := { place with line := place.line + n }

def Token.moved (move : Place → Place) (token : Token) : Token :=
  { token with place := move token.place }

theorem lineTokens_down {m : Nat} : lineTokens (place.down m) line = .ok tokens ↔
    ∃ old, lineTokens place line = .ok old ∧ tokens = old.map (Token.moved (Place.down m)) := by
  rw [lineTokens, lineTokens]
  cases lexemes (trim line) with
  | error c => simp
  | ok ls =>
    simp only [Except.ok.injEq, exists_eq_left', List.map_map]
    exact eq_comm

theorem rowTokens_down {m : Nat} : rowTokens origin (n + m) rows = .ok tokens ↔
    ∃ old, rowTokens origin n rows = .ok old ∧ tokens = old.map (Token.moved (Place.down m)) := by
  induction rows generalizing n tokens with
  | nil => simp [rowTokens_nil, eq_comm]
  | cons line rows ih =>
    have here : (⟨origin, n + m⟩ : Place) = Place.down m ⟨origin, n⟩ := rfl
    have next : n + m + 1 = n + 1 + m := by omega
    simp only [rowTokens_cons_ok_iff, here, next, lineTokens_down, ih]
    constructor
    · rintro ⟨_, _, ⟨first, read, rfl⟩, ⟨rest, more, rfl⟩, rfl⟩
      exact ⟨first ++ rest, ⟨first, rest, read, more, rfl⟩, List.map_append.symm⟩
    · rintro ⟨_, ⟨first, rest, read, more, rfl⟩, rfl⟩
      exact ⟨_, _, ⟨first, read, rfl⟩, ⟨rest, more, rfl⟩, List.map_append⟩

theorem place_of_lineTokens (read : lineTokens place line = .ok tokens) {token : Token}
    (member : token ∈ tokens) : token.place = place := by
  rw [lineTokens] at read
  split at read
  · cases read
    obtain ⟨l, _, rfl⟩ := List.mem_map.mp member
    rfl
  · cases read

theorem place_of_rowTokens (read : rowTokens origin n (lines cs) = .ok tokens) {token : Token}
    (member : token ∈ tokens) : n ≤ token.place.line ∧ token.place.line < n + height cs := by
  induction cs using line_induction generalizing n tokens with
  | last line single =>
    rw [rowTokens_line single] at read
    rw [place_of_lineTokens read member, height_line single]
    exact ⟨Nat.le_refl n, Nat.lt_succ_self n⟩
  | more line cs single ih =>
    obtain ⟨first, rest, here, below, rfl⟩ := (rowTokens_line_append single).mp read
    rw [height_line_append single]
    rcases List.mem_append.mp member with member | member
    · rw [place_of_lineTokens here member]
      dsimp only
      omega
    · have inside := ih below member
      omega

theorem tokenize_append_ok_iff {first second : String} :
    tokenize origin (first ++ "\n" ++ second) = .ok tokens ↔
      ∃ above below, tokenize origin first = .ok above ∧ tokenize origin second = .ok below ∧
        tokens = above ++ below.map (Token.moved (Place.down (height first.toList))) := by
  have joined : (first ++ "\n" ++ second).toList = first.toList ++ '\n' :: second.toList := by
    simp
  have rows (source : String) : tokenize origin source = rowTokens origin 1 (lines source.toList) :=
    rfl
  simp only [rows, joined, rowTokens_append_ok_iff, rowTokens_down]
  constructor
  · rintro ⟨above, _, read, ⟨below, read', rfl⟩, rfl⟩
    exact ⟨above, below, read, read', rfl⟩
  · rintro ⟨above, below, read, read', rfl⟩
    exact ⟨above, _, read, ⟨below, read', rfl⟩, rfl⟩

/-- No token of the one list stands on a line of the other. -/
def Apart (tokens later : List Token) : Prop :=
  ∀ token ∈ tokens, ∀ other ∈ later, other.place ≠ token.place

theorem apart_of_tokenize {first second : String} {above below : List Token}
    (read : tokenize origin first = .ok above) (read' : tokenize origin second = .ok below) :
    Apart above (below.map (Token.moved (Place.down (height first.toList)))) := by
  intro token member moved below' same
  obtain ⟨other, member', rfl⟩ := List.mem_map.mp below'
  have upper := (place_of_rowTokens read member).2
  have lower := (place_of_rowTokens read' member').1
  have line : other.place.line + height first.toList = token.place.line :=
    congrArg Place.line same
  omega

end Flipbook.Script

import Flipbook.Proofs.Script.Lexing
import Flipbook.Proofs.Script.Rows
import Mathlib.Data.List.Pairwise

/-!
# What the tokens of a script account for

The lexemes of each line are the tokens that carry its place, and an error names the first line that
cannot be read, and the only place where it cannot be read on (`tokenize_accounts`).
-/

namespace Flipbook.Script

open Text Pattern

variable {cs rest : List Char} {l : Lexeme} {ls : List Lexeme}
variable {origin : String} {n i : Nat} {rows : List (List Char)} {line : List Char}
variable {tokens : List Token} {place : Place} {e : LexicalError}

/-- A lexeme on a line. -/
def Lexeme.token (place : Place) (l : Lexeme) : Token :=
  ⟨l.kind, .ofList l.text, place⟩

theorem lineTokens_ok_iff : lineTokens place line = .ok tokens ↔
    ∃ ls, lexemes (trim line) = .ok ls ∧ tokens = ls.map (Lexeme.token place) := by
  unfold lineTokens
  cases lexemes (trim line) with
  | error c => simp
  | ok ls =>
    simp only [Except.ok.injEq, exists_eq_left']
    exact eq_comm

theorem lineTokens_error_iff : lineTokens place line = .error e ↔
    e.place = place ∧ lexemes (trim line) = .error e.character := by
  unfold lineTokens
  cases lexemes (trim line) with
  | ok ls => simp
  | error c =>
    obtain ⟨place', c'⟩ := e
    simp only [Except.error.injEq, LexicalError.mk.injEq]
    exact and_congr_left' eq_comm

theorem rowTokens_cons (line : List Char) : rowTokens origin n (line :: rows) =
    (lineTokens ⟨origin, n⟩ line).bind fun first =>
      (rowTokens origin (n + 1) rows).map (first ++ ·) := by
  rw [rowTokens, rowTokens, List.zipIdx_cons, List.mapM_cons]
  cases lineTokens ⟨origin, n⟩ line with
  | error e => rfl
  | ok first =>
    cases (rows.zipIdx (n + 1)).mapM fun row => lineTokens ⟨origin, row.2⟩ row.1 <;> rfl

theorem place_of_rows (read : rowTokens origin n rows = .ok tokens) {token : Token}
    (member : token ∈ tokens) : ∃ i < rows.length, token.place = ⟨origin, n + i⟩ := by
  induction rows generalizing n tokens with
  | nil =>
    rw [rowTokens_nil] at read
    cases read
    cases member
  | cons line rows ih =>
    obtain ⟨first, rest, here, below, rfl⟩ := rowTokens_cons_ok_iff.mp read
    rcases List.mem_append.mp member with member | member
    · exact ⟨0, Nat.succ_pos _, place_of_lineTokens here member⟩
    · obtain ⟨i, inside, place⟩ := ih below member
      refine ⟨i + 1, Nat.succ_lt_succ inside, ?_⟩
      rw [place]
      congr 1
      omega

/-- The tokens of a line are those that carry its place. -/
theorem lineTokens_of_rows (read : rowTokens origin n rows = .ok tokens)
    (here : rows[i]? = some line) :
    lineTokens ⟨origin, n + i⟩ line = .ok (tokens.filter (·.place = ⟨origin, n + i⟩)) := by
  induction rows generalizing n i tokens with
  | nil => cases here
  | cons top rows ih =>
    obtain ⟨first, rest, read', below, rfl⟩ := rowTokens_cons_ok_iff.mp read
    cases i with
    | zero =>
      cases here
      have all : first.filter (·.place = ⟨origin, n + 0⟩) = first := by
        rw [List.filter_eq_self]
        intro token member
        exact decide_eq_true (place_of_lineTokens read' member)
      have elsewhere : rest.filter (·.place = ⟨origin, n + 0⟩) = [] := by
        rw [List.filter_eq_nil_iff]
        intro token member
        obtain ⟨j, _, place⟩ := place_of_rows below member
        simp [place]
        omega
      rw [List.filter_append, all, elsewhere, List.append_nil]
      exact read'
    | succ i =>
      have next : n + (i + 1) = n + 1 + i := by omega
      have elsewhere : first.filter (·.place = ⟨origin, n + 1 + i⟩) = [] := by
        rw [List.filter_eq_nil_iff]
        intro token member
        simp [place_of_lineTokens read' member]
        omega
      rw [next, List.filter_append, elsewhere, List.nil_append]
      exact ih below here

theorem pairwise_of_rows (read : rowTokens origin n rows = .ok tokens) :
    tokens.Pairwise (·.place.line ≤ ·.place.line) := by
  induction rows generalizing n tokens with
  | nil =>
    rw [rowTokens_nil] at read
    cases read
    exact .nil
  | cons line rows ih =>
    obtain ⟨first, rest, here, below, rfl⟩ := rowTokens_cons_ok_iff.mp read
    refine List.pairwise_append.mpr ⟨?_, ih below, ?_⟩
    · refine List.pairwise_of_forall_mem_list ?_
      intro token member other member'
      rw [place_of_lineTokens here member, place_of_lineTokens here member']
    · intro token member other member'
      obtain ⟨j, _, place⟩ := place_of_rows below member'
      rw [place_of_lineTokens here member, place]
      exact Nat.le_add_right_of_le (Nat.le_succ n)

theorem rows_error_below {first : List Token} (read : lineTokens ⟨origin, n⟩ line = .ok first)
    (failed : rowTokens origin n (line :: rows) = .error e) :
    rowTokens origin (n + 1) rows = .error e := by
  rw [rowTokens_cons, read] at failed
  cases below : rowTokens origin (n + 1) rows with
  | error e' =>
    rw [below] at failed
    cases failed
    rfl
  | ok rest =>
    rw [below] at failed
    cases failed

/-- An error is that of the first line that has one. -/
theorem first_of_rows_error (failed : rowTokens origin n rows = .error e) :
    ∃ i line, rows[i]? = some line ∧ lineTokens ⟨origin, n + i⟩ line = .error e ∧
      ∀ j earlier, j < i → rows[j]? = some earlier →
        ∃ first, lineTokens ⟨origin, n + j⟩ earlier = .ok first := by
  induction rows generalizing n with
  | nil => cases failed
  | cons top rows ih =>
    cases here : lineTokens ⟨origin, n⟩ top with
    | error e' =>
      rw [rowTokens_cons, here] at failed
      cases failed
      refine ⟨0, top, rfl, here, ?_⟩
      intro j earlier lower
      exact absurd lower (Nat.not_lt_zero j)
    | ok first =>
      have below := rows_error_below here failed
      obtain ⟨i, line, found, wrong, before⟩ := ih below
      refine ⟨i + 1, line, found, ?_, ?_⟩
      · have next : n + (i + 1) = n + 1 + i := by omega
        rw [next]
        exact wrong
      · intro j earlier lower at_
        cases j with
        | zero =>
          cases at_
          exact ⟨first, here⟩
        | succ j =>
          have next : n + (j + 1) = n + 1 + j := by omega
          rw [next]
          exact before j earlier (by omega) at_

theorem not_mem_of_mem_lines (member : line ∈ lines cs) : '\n' ∉ line := by
  induction cs using line_induction with
  | last whole single =>
    rw [lines_of_not_mem single] at member
    split at member
    · cases member
    · rw [List.mem_singleton.mp member]
      exact single
  | more whole rest single ih =>
    obtain ⟨first, split, same⟩ := lines_append_of_not_mem single rest
    rw [split] at member
    rcases List.mem_cons.mp member with rfl | member
    · rcases same with rfl | rfl
      · exact single
      · exact fun inside => single (List.mem_append_left _ inside)
    · exact ih member

theorem not_mem_trim (single : '\n' ∉ line) : '\n' ∉ trim line := by
  intro member
  have inside := List.mem_reverse.mp ((List.dropWhile_suffix _).subset (List.mem_reverse.mp member))
  exact single ((List.dropWhile_suffix _).subset inside)

theorem Lexes.begins (lexes : Lexes cs ls rest) (member : l ∈ ls) :
    ∃ tail, l.Begins (l.text ++ tail) := by
  induction lexes with
  | done => cases member
  | @lexeme _ tail _ first _ _ begins _ ih =>
    rcases List.mem_cons.mp member with rfl | member
    · exact ⟨tail, begins⟩
    · exact ih member

/-- A token is a lexeme on one of the lines. -/
theorem exists_lexeme (read : rowTokens origin n (lines cs) = .ok tokens) {token : Token}
    (member : token ∈ tokens) : ∃ i line ls rest l, (lines cs)[i]? = some line ∧
      Lexes (trim line) ls rest ∧ l ∈ ls ∧ token = l.token ⟨origin, n + i⟩ := by
  obtain ⟨i, inside, place⟩ := place_of_rows read member
  have here := List.getElem?_eq_getElem inside
  have single := not_mem_trim (not_mem_of_mem_lines (List.mem_of_getElem? here))
  obtain ⟨ls, lexemes, same⟩ := lineTokens_ok_iff.mp (lineTokens_of_rows read here)
  obtain ⟨rest, lexes, _⟩ := (lexemes_ok_iff single).mp lexemes
  have member' : token ∈ tokens.filter (·.place = ⟨origin, n + i⟩) :=
    List.mem_filter.mpr ⟨member, decide_eq_true place⟩
  rw [same] at member'
  obtain ⟨l, among, same'⟩ := List.mem_map.mp member'
  exact ⟨i, _, ls, rest, l, here, lexes, among, same'.symm⟩

theorem Lexeme.text_token (place : Place) (l : Lexeme) : (l.token place).text.toList = l.text :=
  String.toList_ofList

/-- A line is blanks and lexemes, up to its end or to a comment. -/
def Accounts (line : List Char) (ls : List Lexeme) : Prop :=
  ∃ rest, Lexes (trim line) ls rest ∧ Ended rest

/-- Each line of a script is read as blanks and lexemes to its end or to a comment, and the lexemes
are the tokens that carry the place of the line. If that does not work out, the error is on the first
line that cannot be read in this way, at the only place where the line cannot be read on. -/
theorem tokenize_accounts (origin source : String) :
    (∀ tokens, tokenize origin source = .ok tokens →
      (∀ n line, (lines source.toList)[n]? = some line → ∃ ls, Accounts line ls ∧
        tokens.filter (·.place = ⟨origin, n + 1⟩) = ls.map (Lexeme.token ⟨origin, n + 1⟩)) ∧
      (∀ token ∈ tokens,
        (∃ n < (lines source.toList).length, token.place = ⟨origin, n + 1⟩) ∧
          token.text.toList ∈ token.kind.shape ∧
          (token.text.toList ∈ wordShape → reservedWords.lookup token.text =
            if token.kind = .name then none else some token.kind)) ∧
      tokens.Pairwise (·.place.line ≤ ·.place.line)) ∧
    (∀ e, tokenize origin source = .error e → ∃ n line ls more,
      (lines source.toList)[n]? = some line ∧ e.place = ⟨origin, n + 1⟩ ∧
        (∀ m earlier, m < n → (lines source.toList)[m]? = some earlier →
          ∃ ls, Accounts earlier ls) ∧
        Lexes (trim line) ls (e.character :: more) ∧ Stuck (e.character :: more) ∧
        ∀ ls' rest, Lexes (trim line) ls' rest → Closed rest →
          ls' = ls ∧ rest = e.character :: more) := by
  have rows : tokenize origin source = rowTokens origin 1 (lines source.toList) := rfl
  have single (n line) (here : (lines source.toList)[n]? = some line) : '\n' ∉ trim line :=
    not_mem_trim (not_mem_of_mem_lines (List.mem_of_getElem? here))
  rw [rows]
  refine ⟨?_, ?_⟩
  · intro tokens read
    have lined : ∀ n line, (lines source.toList)[n]? = some line → ∃ ls, Accounts line ls ∧
        tokens.filter (·.place = ⟨origin, n + 1⟩) = ls.map (Lexeme.token ⟨origin, n + 1⟩) := by
      intro n line here
      have read' := lineTokens_of_rows read here
      rw [Nat.add_comm 1 n] at read'
      obtain ⟨ls, lexemes, same⟩ := lineTokens_ok_iff.mp read'
      exact ⟨ls, (lexemes_ok_iff (single n line here)).mp lexemes, same⟩
    refine ⟨lined, ?_, pairwise_of_rows read⟩
    intro token member
    obtain ⟨n, line, ls, rest, l, here, lexes, among, rfl⟩ := exists_lexeme read member
    obtain ⟨inside, _⟩ := List.getElem?_eq_some_iff.mp here
    obtain ⟨tail, begins⟩ := lexes.begins among
    rw [Lexeme.text_token]
    refine ⟨⟨n, inside, congrArg (Place.mk origin) (Nat.add_comm 1 n)⟩, begins.fits, ?_⟩
    intro word
    have kind : (l.token ⟨origin, 1 + n⟩).kind = wordKind (.ofList l.text) :=
      begins.kind_of_word word
    rw [kind]
    exact lookup_wordKind _
  · intro e failed
    obtain ⟨n, line, here, wrong, before⟩ := first_of_rows_error failed
    obtain ⟨place, bare⟩ := lineTokens_error_iff.mp wrong
    obtain ⟨ls, more, lexes, stuck⟩ := (lexemes_error_iff (single n line here)).mp bare
    rw [Nat.add_comm 1 n] at place
    refine ⟨n, line, ls, more, here, place, ?_, lexes, stuck, ?_⟩
    · intro m earlier lower here'
      obtain ⟨first, read⟩ := before m earlier lower here'
      obtain ⟨ls, lexemes, _⟩ := lineTokens_ok_iff.mp read
      exact ⟨ls, (lexemes_ok_iff (single m earlier here')).mp lexemes⟩
    · intro ls' rest lexes' closed
      exact lexes.unique lexes' (single n line here) (closed_of_stuck stuck) closed

end Flipbook.Script

import Flipbook.Proofs.Script.Comments

/-!
# Written tokens

Tokens are written as a text in which each stands on its line, with one blank between neighbours. The
tokens of a script, which may touch each other there, are also the tokens of this text
(`tokenize_written`).
-/

namespace Flipbook.Script

open Text Pattern

variable {cs rest : List Char} {l : Lexeme} {ls : List Lexeme}
variable {origin source : String} {n count height : Nat} {tokens : List Token} {token : Token}

def writtenLine (tokens : List Token) (n : Nat) : List Char :=
  [' '].intercalate ((tokens.filter (·.place.line = n)).map (·.text.toList))

/-- Tokens as a text of `height` lines. Lines without tokens are empty. -/
def written (height : Nat) (tokens : List Token) : String :=
  .ofList (['\n'].intercalate ((List.range' 1 height).map (writtenLine tokens)))

/-! ### A line of lexemes -/

theorem Lexeme.Begins.noSlash (begins : l.Begins cs) (rest : List Char) :
    ¬ ['/'] <+: l.text ++ rest := by
  obtain ⟨c, tail, same, outer⟩ := begins.head
  intro slash
  rw [same, List.cons_append] at slash
  exact ne_slash_of_isOuter outer (List.cons_prefix_cons.mp slash).1.symm

/-- Lexemes that begin their own texts are read one by one, each behind a blank. -/
theorem lexes_spaced (each : ∀ l ∈ ls, l.Begins l.text) :
    Lexes (ls.flatMap fun l => ' ' :: l.text) ls [] := by
  have blank : ∀ c ∈ [' '], isBlank c = true := List.forall_mem_singleton.mpr rfl
  induction ls with
  | nil =>
    have blanks : ∀ c ∈ ([] : List Char), isBlank c = true := nofun
    exact .done blanks nofun
  | cons l ls ih =>
    obtain ⟨first, others⟩ := List.forall_mem_cons.mp each
    have begins : l.Begins (l.text ++ ls.flatMap fun l => ' ' :: l.text) := by
      cases ls with
      | nil => simpa using first
      | cons next ls =>
        have noSlash := (others next List.mem_cons_self).noSlash (ls.flatMap fun l => ' ' :: l.text)
        exact first.blank (blank ' ' (List.mem_singleton_self _)) noSlash
    exact .lexeme blank begins (ih others)

theorem cons_intercalate (text : List Char) (texts : List (List Char)) :
    ' ' :: [' '].intercalate (text :: texts) = (text :: texts).flatMap (' ' :: ·) := by
  induction texts generalizing text with
  | nil => simp [List.intercalate]
  | cons next texts ih =>
    rw [List.flatMap_cons, ← ih next]
    simp [List.intercalate]

theorem mem_intercalate {c : Char} {texts : List (List Char)}
    (member : c ∈ [' '].intercalate texts) : c = ' ' ∨ ∃ text ∈ texts, c ∈ text := by
  cases texts with
  | nil => cases member
  | cons text texts =>
    have inside := List.mem_cons_of_mem ' ' member
    rw [cons_intercalate] at inside
    obtain ⟨text', among, inside⟩ := List.mem_flatMap.mp inside
    rcases List.mem_cons.mp inside with blank | inside
    · exact .inl blank
    · exact .inr ⟨text', among, inside⟩

theorem lexemes_intercalate (single : '\n' ∉ [' '].intercalate (ls.map (·.text)))
    (each : ∀ l ∈ ls, l.Begins l.text) :
    lexemes ([' '].intercalate (ls.map (·.text))) = .ok ls := by
  cases ls with
  | nil => exact lexemes_nil
  | cons l ls =>
    have lexes := lexes_spaced each
    rw [← List.flatMap_map, List.map_cons, ← cons_intercalate] at lexes
    have single' : '\n' ∉ ' ' :: [' '].intercalate (l.text :: ls.map (·.text)) := by
      simpa using single
    have read := lexemes_of_ended lexes single' (.inl rfl)
    rwa [lexemes_blank (by decide)] at read

/-! ### The tokens of a script -/

def Token.lexeme (token : Token) : Lexeme :=
  ⟨token.kind, token.text.toList⟩

theorem Token.token_lexeme (token : Token) : token.lexeme.token token.place = token := by
  rw [lexeme, Lexeme.token, String.ofList_toList]

theorem Lexeme.lexeme_token (place : Place) (l : Lexeme) : (l.token place).lexeme = l := by
  rw [Token.lexeme, Lexeme.text_token]
  rfl

/-- A token of a script is read from its own text. -/
theorem begins_alone (read : rowTokens origin n (lines cs) = .ok tokens)
    (member : token ∈ tokens) : token.lexeme.Begins token.lexeme.text ∧ '\n' ∉ token.lexeme.text := by
  obtain ⟨i, line, ls, rest, l, here, lexes, among, rfl⟩ := exists_lexeme read member
  obtain ⟨tail, begins⟩ := lexes.begins among
  have single := not_mem_trim (not_mem_of_mem_lines (List.mem_of_getElem? here))
  rw [Lexeme.lexeme_token]
  refine ⟨begins.restrict List.prefix_rfl (List.prefix_append l.text tail), ?_⟩
  exact fun feed => single ((lexes.text_isInfix among).subset feed)

theorem not_mem_writtenLine (read : rowTokens origin 1 (lines cs) = .ok tokens) (n : Nat) :
    '\n' ∉ writtenLine tokens n := by
  intro feed
  rcases mem_intercalate feed with blank | ⟨text, among, inside⟩
  · exact absurd blank (by decide)
  · obtain ⟨token, member, rfl⟩ := List.mem_map.mp among
    exact (begins_alone read (List.mem_of_mem_filter member)).2 inside

theorem lineTokens_written (read : rowTokens origin 1 (lines cs) = .ok tokens) (n : Nat) :
    lineTokens ⟨origin, n⟩ (writtenLine tokens n) = .ok (tokens.filter (·.place.line = n)) := by
  have single := not_mem_writtenLine read n
  have texts : writtenLine tokens n =
      [' '].intercalate (((tokens.filter (·.place.line = n)).map Token.lexeme).map (·.text)) := by
    rw [writtenLine, List.map_map]
    rfl
  refine lineTokens_ok_iff.mpr ⟨(tokens.filter (·.place.line = n)).map Token.lexeme, ?_, ?_⟩
  · rw [lexemes_trim single]
    rw [texts] at single ⊢
    refine lexemes_intercalate single ?_
    intro l among
    obtain ⟨token, member, rfl⟩ := List.mem_map.mp among
    exact (begins_alone read (List.mem_of_mem_filter member)).1
  · have same : ∀ token ∈ tokens.filter (·.place.line = n),
        Lexeme.token ⟨origin, n⟩ token.lexeme = token := by
      intro token member
      obtain ⟨member, line⟩ := List.mem_filter.mp member
      obtain ⟨i, _, place⟩ := place_of_rows read member
      have here : token.place = ⟨origin, n⟩ := by
        rw [place] at line ⊢
        rw [← of_decide_eq_true line]
      rw [← here, token.token_lexeme]
    rw [List.map_map]
    exact ((List.map_congr_left same).trans (List.map_id _)).symm

/-! ### The lines of the text -/

theorem rowTokens_intercalate {row : Nat → List Char} {tokensAt : Nat → List Token}
    (single : ∀ n, '\n' ∉ row n) (each : ∀ n, lineTokens ⟨origin, n⟩ (row n) = .ok (tokensAt n)) :
    rowTokens origin n (lines (['\n'].intercalate ((List.range' n count).map row))) =
      .ok ((List.range' n count).flatMap tokensAt) := by
  induction count generalizing n with
  | zero => exact rowTokens_nil
  | succ count ih =>
    cases count with
    | zero =>
      have only : ['\n'].intercalate ((List.range' n 1).map row) = row n := by
        simp [List.intercalate]
      rw [only, rowTokens_line (single n), each n]
      simp
    | succ count =>
      have first : ['\n'].intercalate ((List.range' n (count + 2)).map row) =
          row n ++ '\n' :: ['\n'].intercalate ((List.range' (n + 1) (count + 1)).map row) := by
        simp [List.intercalate, List.range'_succ]
      rw [first, rowTokens_line_append (single n)]
      exact ⟨_, _, each n, ih, by rw [List.range'_succ, List.flatMap_cons]⟩

/-- Tokens in the order of their lines begin with those of the first line. -/
theorem filter_append_filter (sorted : tokens.Pairwise (·.place.line ≤ ·.place.line))
    (below : ∀ token ∈ tokens, n ≤ token.place.line) :
    tokens.filter (·.place.line = n) ++ tokens.filter (·.place.line ≠ n) = tokens := by
  induction tokens with
  | nil => rfl
  | cons token tokens ih =>
    obtain ⟨least, sorted⟩ := List.pairwise_cons.mp sorted
    obtain ⟨here, below⟩ := List.forall_mem_cons.mp below
    by_cases first : token.place.line = n
    · simpa [first] using ih sorted below
    · have later : ∀ other ∈ tokens, other.place.line ≠ n := by
        intro other member
        have := least other member
        omega
      have elsewhere : tokens.filter (·.place.line = n) = [] := by
        simpa [List.filter_eq_nil_iff] using later
      have all : tokens.filter (·.place.line ≠ n) = tokens := by
        simpa [List.filter_eq_self] using later
      rw [List.filter_cons_of_neg (by simpa using first), List.filter_cons_of_pos (by simpa using first),
        elsewhere, all]
      rfl

/-- Tokens in the order of their lines are those of each line in turn. -/
theorem flatMap_lines (sorted : tokens.Pairwise (·.place.line ≤ ·.place.line))
    (within : ∀ token ∈ tokens, n ≤ token.place.line ∧ token.place.line < n + count) :
    (List.range' n count).flatMap (fun i => tokens.filter (·.place.line = i)) = tokens := by
  induction count generalizing n tokens with
  | zero =>
    have empty : tokens = [] := by
      refine List.eq_nil_iff_forall_not_mem.mpr fun token member => ?_
      have := within token member
      omega
    rw [empty]
    rfl
  | succ count ih =>
    have sorted' : (tokens.filter (·.place.line ≠ n)).Pairwise (·.place.line ≤ ·.place.line) :=
      sorted.filter _
    have within' : ∀ token ∈ tokens.filter (·.place.line ≠ n),
        n + 1 ≤ token.place.line ∧ token.place.line < n + 1 + count := by
      intro token member
      obtain ⟨member, other⟩ := List.mem_filter.mp member
      have inside := within token member
      have other' := of_decide_eq_true other
      omega
    -- No token of the first line is left on the lines below.
    have below : ∀ i ∈ List.range' (n + 1) count, tokens.filter (·.place.line = i) =
        (tokens.filter (·.place.line ≠ n)).filter (·.place.line = i) := by
      intro i member
      have lower := (List.mem_range'_1.mp member).1
      rw [List.filter_filter]
      refine List.filter_congr fun token _ => ?_
      have other : token.place.line = i → token.place.line ≠ n := by omega
      simpa using other
    rw [List.range'_succ, List.flatMap_cons, List.flatMap_congr below, ih sorted' within']
    exact filter_append_filter sorted fun token member => (within token member).1

/-- The tokens of a script, written as a text with one blank between neighbours, are the tokens of that
text, if it has lines enough. -/
theorem tokenize_written (read : tokenize origin source = .ok tokens)
    (reaches : ∀ token ∈ tokens, token.place.line ≤ height) :
    tokenize origin (written height tokens) = .ok tokens := by
  have rows (source : String) : tokenize origin source = rowTokens origin 1 (lines source.toList) :=
    rfl
  rw [rows] at read ⊢
  have within : ∀ token ∈ tokens, 1 ≤ token.place.line ∧ token.place.line < 1 + height := by
    intro token member
    obtain ⟨i, _, place⟩ := place_of_rows read member
    have upper := reaches token member
    rw [place] at upper ⊢
    dsimp only at upper ⊢
    omega
  rw [written, String.toList_ofList,
    rowTokens_intercalate (not_mem_writtenLine read) (lineTokens_written read),
    flatMap_lines (pairwise_of_rows read) within]

/-- Numbers, words and paths that touch each other come apart, while the blank of a path stays in it. -/
theorem touching_tokens_come_apart :
    let tokens : List Token := [⟨.name, "a", ⟨"t.mdl", 1⟩⟩, ⟨.number, "-5", ⟨"t.mdl", 1⟩⟩,
      ⟨.number, "3", ⟨"t.mdl", 1⟩⟩, ⟨.path, "d.png", ⟨"t.mdl", 1⟩⟩,
      ⟨.path, ". /a.b", ⟨"t.mdl", 3⟩⟩, ⟨.number, "1.5", ⟨"t.mdl", 4⟩⟩, ⟨.number, ".2", ⟨"t.mdl", 4⟩⟩]
    tokenize "t.mdl" "a-5 3d.png\n\n  . /a.b//c\r\n1.5.2" = .ok tokens ∧
      (∀ token ∈ tokens, token.place.line ≤ 5) ∧
      written 5 tokens = "a -5 3 d.png\n\n. /a.b\n1.5 .2\n" ∧
      tokenize "t.mdl" "a -5 3 d.png\n\n. /a.b\n1.5 .2\n" = .ok tokens := by
  intro tokens
  have read : tokenize "t.mdl" "a-5 3d.png\n\n  . /a.b//c\r\n1.5.2" = .ok tokens := by
    decide +kernel
  have reaches : ∀ token ∈ tokens, token.place.line ≤ 5 := by decide
  have text : written 5 tokens = "a -5 3 d.png\n\n. /a.b\n1.5 .2\n" := by decide +kernel
  refine ⟨read, reaches, text, ?_⟩
  rw [← text]
  exact tokenize_written read reaches

end Flipbook.Script

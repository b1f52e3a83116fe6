import Flipbook.Proofs.Script.Accounts
import Flipbook.Proofs.Script.Cutting
import Mathlib.Data.List.DropRight
import Mathlib.Data.List.Infix

/-!
# Comments and blanks

A line is read the same without its comment, unless a lexeme in front of it holds the two slashes
(`tokenize_withoutComments`). Only a path can hold them, or a blank, and only in a directory that is a
point, a character and a slash.
-/

namespace Flipbook.Script

open Text Pattern

variable {cs rest short text before after line : List Char} {c : Char} {l : Lexeme}
variable {ls : List Lexeme} {shape : Language Char}

/-! ### Blanks and slashes in tokens -/

theorem isOuter_of_mem_file (fits : text ∈ fileShape) : ∀ c ∈ text, isOuter c = true := by
  have point : isOuter '.' = true := by decide
  obtain ⟨stem, inside, extension, inside', rfl⟩ := mem_fileShape.mp fits
  intro c member
  rcases List.mem_append.mp member with member | member
  · exact isOuter_of_isFileChar ((mem_run.mp inside).2 c member)
  · rcases List.mem_cons.mp member with rfl | member
    · exact point
    · apply isOuter_of_isFileChar
      apply isFileChar_of_isAlphanumeric
      exact (mem_run.mp inside').2 c member

theorem head_of_mem_path (fits : c :: rest ∈ pathShape) : isOuter c = true := by
  obtain ⟨d, tail, same, outer⟩ := head_of_shape .path fits
  cases same
  exact outer

/-- Where a character stands in a path that no lexeme starts or ends with. -/
def BetweenNames (before : List Char) (c : Char) (after : List Char) : Prop :=
  c = '/' ∧ ¬ ['/'] <+: after ∨ ['.'] <:+ before ∧ ['/'] <+: after

theorem between_of_mem_directory {d more : List Char} (directory : d ∈ directoryShape)
    (fits : more ∈ pathShape) (same : d = before ++ c :: after) (inner : isOuter c = false) :
    BetweenNames before c (after ++ more) := by
  have noSlash : ¬ ['/'] <+: more := by
    rintro ⟨tail, rfl⟩
    exact ne_slash_of_isOuter (head_of_mem_path fits) rfl
  have point : isOuter '.' = true := by decide
  rcases mem_directoryShape.mp directory with rfl | ⟨e, rfl, -⟩ | ⟨name, inside, rfl⟩
  · rcases before with _ | ⟨b, _ | ⟨b', before⟩⟩
    · cases same
      rw [point] at inner
      cases inner
    · cases same
      exact .inl ⟨rfl, noSlash⟩
    · simp at same
  · rcases before with _ | ⟨b, _ | ⟨b', _ | ⟨b'', before⟩⟩⟩
    · cases same
      rw [point] at inner
      cases inner
    · cases same
      exact .inr ⟨List.suffix_rfl, ⟨more, rfl⟩⟩
    · cases same
      exact .inl ⟨rfl, noSlash⟩
    · simp at same
  · rcases List.eq_nil_or_concat' after with rfl | ⟨after, e, rfl⟩
    · have last : ['/'] = [c] := (List.append_inj' same rfl).2
      cases last
      exact .inl ⟨rfl, noSlash⟩
    · rw [← List.cons_append, ← List.append_assoc] at same
      have whole : name = before ++ c :: after := (List.append_inj' same rfl).1
      have member : c ∈ name := by
        rw [whole]
        exact List.mem_append_right before List.mem_cons_self
      rw [isOuter_of_isFileChar ((mem_run.mp inside).2 c member)] at inner
      cases inner

theorem between_of_mem_path (fits : text ∈ pathShape) : ∀ before c after,
    text = before ++ c :: after → isOuter c = false → BetweenNames before c after := by
  refine path_induction (motive := fun text => ∀ before c after,
    text = before ++ c :: after → isOuter c = false → BetweenNames before c after) ?_ ?_ fits
  · intro file named before c after same inner
    have member : c ∈ file := by
      rw [same]
      exact List.mem_append_right before List.mem_cons_self
    rw [isOuter_of_mem_file named c member] at inner
    cases inner
  · intro d directory more fits' ih before c after same inner
    rcases List.append_eq_append_iff.mp same with ⟨front, rfl, same'⟩ | ⟨back, whole, same'⟩
    · rcases ih front c after same' inner with slash | ⟨point, slash⟩
      · exact .inl slash
      · exact .inr ⟨point.trans (List.suffix_append d front), slash⟩
    · cases back with
      | nil =>
        rw [List.nil_append] at same'
        rw [← same'] at fits'
        rw [head_of_mem_path fits'] at inner
        cases inner
      | cons e back =>
        cases same'
        exact between_of_mem_directory directory fits' whole inner

/-! ### Blanks at the end of a line -/

/-- No lexeme goes on behind a blank, unless the blank stands between a point and a slash. -/
theorem prefix_of_prefix_blank {kind : TokenKind} (fits : text ∈ kind.shape)
    (blank : isBlank c = true) (noSlash : ¬ ['/'] <+: rest) (starts : text <+: cs ++ c :: rest) :
    text <+: cs := by
  have inner : isOuter c = false := by
    rw [← Bool.not_eq_true]
    intro outer
    rw [isBlank_of_isOuter outer] at blank
    cases blank
  rcases List.prefix_or_prefix_of_prefix starts (List.prefix_append cs _) with short | ⟨after, rfl⟩
  · exact short
  · have starts' := (List.prefix_append_right_inj cs).mp starts
    cases after with
    | nil => rw [List.append_nil]
    | cons d after =>
      obtain ⟨rfl, within⟩ := List.cons_prefix_cons.mp starts'
      by_cases path : kind = .path
      · rw [path] at fits
        rcases between_of_mem_path fits cs d after rfl inner with ⟨rfl, _⟩ | ⟨_, slash⟩
        · exact absurd blank (by decide)
        · exact absurd (slash.trans within) noSlash
      · have outer := isOuter_of_mem_shape path fits d (by simp)
        rw [inner] at outer
        cases outer

theorem noMatch_blank (kind : TokenKind) (noMatch : NoMatch kind.shape cs) (blank : isBlank c = true)
    (noSlash : ¬ ['/'] <+: rest) : NoMatch kind.shape (cs ++ c :: rest) := by
  intro text fits starts
  exact noMatch text fits (prefix_of_prefix_blank fits blank noSlash starts)

theorem longest_blank (kind : TokenKind) (longest : Longest kind.shape cs text)
    (blank : isBlank c = true) (noSlash : ¬ ['/'] <+: rest) :
    Longest kind.shape (cs ++ c :: rest) text := by
  refine ⟨longest.fits, longest.starts.trans (List.prefix_append ..), ?_⟩
  intro other fits starts
  exact longest.longest other fits (prefix_of_prefix_blank fits blank noSlash starts)

/-- What a text begins with does not change when a blank and other text follow it. -/
theorem Lexeme.Begins.blank (begins : l.Begins cs) (blank : isBlank c = true)
    (noSlash : ¬ ['/'] <+: rest) : l.Begins (cs ++ c :: rest) := by
  cases begins with
  | number longest => exact .number (longest_blank .number longest blank noSlash)
  | path noNumber longest =>
    exact .path (noMatch_blank .number noNumber blank noSlash)
      (longest_blank .path longest blank noSlash)
  | word noNumber noPath longest =>
    exact .word (noMatch_blank .number noNumber blank noSlash)
      (noMatch_blank .path noPath blank noSlash) (longest_blank .name longest blank noSlash)

theorem noSlash_nil : ¬ ['/'] <+: ([] : List Char) := by
  decide

theorem Bare.concat (bare : Bare cs) (blank : isBlank c = true) : Bare (cs ++ [c]) :=
  ⟨noMatch_blank .number bare.1 blank noSlash_nil, noMatch_blank .path bare.2.1 blank noSlash_nil,
    noMatch_blank .name bare.2.2 blank noSlash_nil⟩

theorem Ended.concat (ended : Ended rest) (filled : rest ≠ []) (c : Char) :
    Ended (rest ++ [c]) :=
  .inr ((ended.resolve_left filled).trans (List.prefix_append rest [c]))

theorem Stuck.concat (stuck : Stuck rest) (blank : isBlank c = true) : Stuck (rest ++ [c]) := by
  refine ⟨by simp, ?_, stuck.bare.concat blank⟩
  intro comment
  rcases List.prefix_concat_iff.mp comment with whole | starts
  · rw [← List.singleton_append] at whole
    have last : ['/'] = [c] := (List.append_inj' whole rfl).2
    cases last
    exact absurd blank (by decide)
  · exact stuck.noComment starts

/-- A blank behind a text is left over, or it is read with blanks in front of it. -/
theorem Lexes.concat (lexes : Lexes cs ls rest) (blank : isBlank c = true) :
    ∃ rest', Lexes (cs ++ [c]) ls rest' ∧
      (rest ≠ [] ∧ rest' = rest ++ [c] ∨ rest = [] ∧ rest' = []) := by
  induction lexes with
  | @done blanks rest blank' stop =>
    cases rest with
    | nil =>
      have blank'' : ∀ d ∈ blanks ++ [c], isBlank d = true := by
        simpa [or_imp, forall_and, blank] using blank'
      have stop' : ∀ d ∈ ([] : List Char).head?, isBlank d = false := by simp
      have done := Lexes.done blank'' stop'
      exact ⟨[], by simpa using done, .inr ⟨rfl, rfl⟩⟩
    | cons d rest =>
      refine ⟨d :: rest ++ [c], ?_, .inl ⟨List.cons_ne_nil d rest, rfl⟩⟩
      rw [List.append_assoc]
      exact .done blank' stop
  | @lexeme blanks cs rest l ls blank' begins _ ih =>
    obtain ⟨rest', later, left⟩ := ih
    have begins' := begins.blank blank noSlash_nil
    rw [List.append_assoc] at begins'
    refine ⟨rest', ?_, left⟩
    rw [List.append_assoc, List.append_assoc]
    exact .lexeme blank' begins' later

theorem lexemes_concat_blank (single : '\n' ∉ cs ++ [c]) (blank : isBlank c = true) :
    lexemes (cs ++ [c]) = lexemes cs := by
  have single' : '\n' ∉ cs := fun member => single (List.mem_append_left [c] member)
  obtain ⟨ls, rest, lexes, ended | stuck⟩ := exists_lexes cs single'
  · obtain ⟨rest', lexes', left⟩ := lexes.concat blank
    have ended' : Ended rest' := by
      rcases left with ⟨filled, rfl⟩ | ⟨_, rfl⟩
      · exact ended.concat filled c
      · exact .inl rfl
    rw [lexemes_of_ended lexes single' ended, lexemes_of_ended lexes' single ended']
  · obtain ⟨d, more, rfl⟩ := List.exists_cons_of_ne_nil stuck.filled
    obtain ⟨rest', lexes', ⟨_, rfl⟩ | ⟨empty, _⟩⟩ := lexes.concat blank
    · rw [lexemes_of_stuck lexes single' stuck,
        lexemes_of_stuck lexes' single (stuck.concat blank)]
    · cases empty

theorem lexemes_rdropWhile (single : '\n' ∉ cs) :
    lexemes (cs.rdropWhile isBlank) = lexemes cs := by
  induction cs using List.reverseRecOn with
  | nil => rw [List.rdropWhile_nil]
  | append_singleton cs c ih =>
    by_cases blank : isBlank c = true
    · have single' : '\n' ∉ cs := fun member => single (List.mem_append_left [c] member)
      rw [List.rdropWhile_concat_pos isBlank cs c blank, ih single',
        lexemes_concat_blank single blank]
    · rw [List.rdropWhile_concat_neg isBlank cs c blank]

theorem lexemes_trim (single : '\n' ∉ line) : lexemes (trim line) = lexemes line := by
  have parts := List.takeWhile_append_dropWhile (p := isBlank) (l := line)
  have blank : ∀ c ∈ line.takeWhile isBlank, isBlank c = true := fun c => List.mem_takeWhile_imp
  have single' : '\n' ∉ line.dropWhile isBlank := by
    intro member
    exact single ((List.dropWhile_suffix _).subset member)
  have trimmed : trim line = (line.dropWhile isBlank).rdropWhile isBlank := rfl
  rw [trimmed, lexemes_rdropWhile single', ← lexemes_blanks blank, parts]

/-! ### A line without its comment -/

theorem Lexeme.Begins.restrict (begins : l.Begins cs) (inside : l.text <+: short)
    (starts : short <+: cs) : l.Begins short := by
  cases begins with
  | number longest => exact .number (longest.restrict inside starts)
  | path noNumber longest =>
    exact .path (noNumber.restrict starts) (longest.restrict inside starts)
  | word noNumber noPath longest =>
    exact .word (noNumber.restrict starts) (noPath.restrict starts)
      (longest.restrict inside starts)

theorem Bare.restrict (bare : Bare cs) (starts : short <+: cs) : Bare short :=
  ⟨bare.1.restrict starts, bare.2.1.restrict starts, bare.2.2.restrict starts⟩

/-- What is read does not depend on the end of what is left over. -/
theorem Lexes.of_append {tail : List Char} (lexes : Lexes (cs ++ tail) ls (rest ++ tail)) :
    Lexes cs ls rest := by
  generalize whole : cs ++ tail = full at lexes
  generalize remains : rest ++ tail = left at lexes
  induction lexes generalizing cs with
  | @done blanks left blank stop =>
    rw [← remains, ← List.append_assoc] at whole
    rw [List.append_cancel_right whole]
    refine .done blank ?_
    intro c first
    refine stop c ?_
    rw [← remains, List.head?_append, Option.mem_def.mp first]
    rfl
  | @lexeme blanks cs' left l ls blank begins later ih =>
    obtain ⟨read, same⟩ := later.suffix
    rw [← remains, ← List.append_assoc] at same
    have inner := ih same remains
    rw [← same, ← List.append_assoc l.text, ← List.append_assoc blanks] at whole
    rw [List.append_cancel_right whole]
    refine .lexeme blank (begins.restrict (List.prefix_append ..) ?_) inner
    rw [← same]
    exact (List.prefix_append_right_inj l.text).mpr (List.prefix_append ..)

/-- Without a lexeme that holds `//`, the first comment stands where the lexemes end, or behind. -/
theorem Lexes.beforeComment_eq (lexes : Lexes cs ls rest)
    (free : ∀ l ∈ ls, ¬ ['/', '/'] <:+: l.text) :
    ∃ read, cs = read ++ rest ∧ beforeComment cs = read ++ beforeComment rest := by
  have blanks_append {blanks : List Char} (blank : ∀ c ∈ blanks, isBlank c = true)
      (rest : List Char) : beforeComment (blanks ++ rest) = blanks ++ beforeComment rest := by
    have noSlash : '/' ∉ blanks := fun member => absurd (blank '/' member) (by decide)
    refine beforeComment_append ?_ ?_ rest
    · exact fun inner => noSlash (inner.subset List.mem_cons_self)
    · exact fun ends => noSlash (ends.subset List.mem_cons_self)
  induction lexes with
  | @done blanks rest blank stop => exact ⟨blanks, rfl, blanks_append blank rest⟩
  | @lexeme blanks cs rest l ls blank begins _ ih =>
    obtain ⟨read, rfl, same⟩ := ih fun l' member => free l' (List.mem_cons_of_mem l member)
    have noSlash : ¬ ['/'] <:+ l.text := by
      intro ends
      obtain ⟨front, same⟩ := ends
      obtain ⟨front', c, same', outer⟩ := last_of_shape l.kind begins.fits
      rw [← same] at same'
      have last : ['/'] = [c] := (List.append_inj' same' rfl).2
      cases last
      exact ne_slash_of_isOuter outer rfl
    refine ⟨blanks ++ (l.text ++ read), by simp only [List.append_assoc], ?_⟩
    rw [blanks_append blank, beforeComment_append (free l List.mem_cons_self) noSlash, same]
    simp only [List.append_assoc]

/-- No lexeme of a line holds `//`, as far as the line can be read. -/
def Plain (line : List Char) : Prop :=
  ∀ ls rest, Lexes line ls rest → Closed rest → ∀ l ∈ ls, ¬ ['/', '/'] <:+: l.text

theorem lexemes_beforeComment (single : '\n' ∉ line) (plain : Plain line) :
    lexemes (beforeComment line) = lexemes line := by
  have single' : '\n' ∉ beforeComment line := by
    intro member
    exact single ((beforeComment_isPrefix line).subset member)
  obtain ⟨ls, rest, lexes, ended | stuck⟩ := exists_lexes line single
  · obtain ⟨read, rfl, same⟩ := lexes.beforeComment_eq (plain ls rest lexes (closed_of_ended ended))
    have nothing : beforeComment rest = [] := by
      rcases ended with rfl | comment
      · rfl
      · exact beforeComment_of_comment comment
    rw [nothing, List.append_nil] at same
    have lexes' : Lexes read ls [] := lexes.of_append
    rw [same] at single' ⊢
    rw [lexemes_of_ended lexes single ended, lexemes_of_ended lexes' single' (.inl rfl)]
  · obtain ⟨read, rfl, same⟩ := lexes.beforeComment_eq (plain ls rest lexes (closed_of_stuck stuck))
    obtain ⟨d, more, rfl⟩ := List.exists_cons_of_ne_nil stuck.filled
    obtain ⟨tail, shorter⟩ := beforeComment_isPrefix (d :: more)
    rw [beforeComment_cons stuck.noComment] at same shorter
    have starts : d :: beforeComment more <+: d :: more := ⟨tail, shorter⟩
    have lexes' : Lexes (read ++ d :: beforeComment more) ls (d :: beforeComment more) := by
      refine @Lexes.of_append _ _ _ tail ?_
      rw [List.append_assoc, shorter]
      exact lexes
    have stuck' : Stuck (d :: beforeComment more) :=
      ⟨List.cons_ne_nil d _, fun comment => stuck.noComment (comment.trans starts),
        stuck.bare.restrict starts⟩
    rw [same] at single' ⊢
    rw [lexemes_of_stuck lexes single stuck, lexemes_of_stuck lexes' single' stuck']

theorem lineTokens_beforeComment {place : Place} (single : '\n' ∉ line) (plain : Plain line) :
    lineTokens place (beforeComment line) = lineTokens place line := by
  have single' : '\n' ∉ beforeComment line := by
    intro member
    exact single ((beforeComment_isPrefix line).subset member)
  rw [lineTokens, lineTokens, lexemes_trim single, lexemes_trim single',
    lexemes_beforeComment single plain]

/-! ### The text without comments -/

variable {origin : String} {n i : Nat} {rows : List (List Char)} {tokens : List Token}
variable {place : Place} {token : Token} {e : LexicalError}

theorem rowTokens_text (single : '\n' ∉ line) :
    rowTokens origin n (lines line) = lineTokens ⟨origin, n⟩ line := by
  rw [lines_of_not_mem single]
  split
  · next empty => rw [empty, lineTokens_nil, rowTokens_nil]
  · rw [rowTokens_cons, rowTokens_nil]
    cases lineTokens ⟨origin, n⟩ line with
    | error e => rfl
    | ok first => exact congrArg Except.ok first.append_nil

theorem lineTokens_of_ended {ended : List Char} (same : line = ended ∨ line = ended ++ ['\r']) :
    lineTokens place line = lineTokens place ended := by
  rcases same with rfl | rfl
  · rfl
  · exact lineTokens_concat_blank (by decide)

theorem line_of_rows_error (failed : rowTokens origin n rows = .error e) : n ≤ e.place.line := by
  obtain ⟨i, line, _, wrong, _⟩ := first_of_rows_error failed
  rw [(lineTokens_error_iff.mp wrong).1]
  exact Nat.le_add_right n i

theorem not_mem_beforeComment (single : '\n' ∉ line) : '\n' ∉ beforeComment line := by
  intro member
  exact single ((beforeComment_isPrefix line).subset member)

theorem not_mem_kept {kept : List Char} (single : '\n' ∉ line)
    (keeps : kept = beforeComment line ∨ kept = beforeComment line ++ ['\r']) : '\n' ∉ kept := by
  rcases keeps with rfl | rfl
  · exact not_mem_beforeComment single
  · simpa using not_mem_beforeComment single

theorem rowTokens_cutComments (plain : ∀ i line, (lines cs)[i]? = some line →
      (∀ e, rowTokens origin n (lines cs) = .error e → n + i ≤ e.place.line) → Plain line) :
    rowTokens origin n (lines (cutComments false cs)) = rowTokens origin n (lines cs) := by
  induction cs using line_induction generalizing n with
  | last line single =>
    rw [cutComments_line single, rowTokens_text single,
      rowTokens_text (not_mem_beforeComment single)]
    by_cases empty : line = []
    · rw [empty]
      rfl
    · have here : (lines line)[0]? = some line := by
        rw [lines_of_not_mem single, if_neg empty]
        rfl
      exact lineTokens_beforeComment single (plain 0 line here fun e => line_of_rows_error)
  | more line rest single ih =>
    obtain ⟨ended, split, same⟩ := lines_append_of_not_mem single rest
    obtain ⟨kept, cut, keeps⟩ := cutComments_line_append single rest
    have single' := not_mem_kept single keeps
    obtain ⟨ended', split', same'⟩ := lines_append_of_not_mem single' (cutComments false rest)
    rw [split] at plain ⊢
    have here : lineTokens ⟨origin, n⟩ ended' = lineTokens ⟨origin, n⟩ ended := by
      have single'' : '\n' ∉ ended := not_mem_of_mem_lines (split ▸ List.mem_cons_self)
      have plain' : Plain ended := plain 0 ended rfl fun e => line_of_rows_error
      calc lineTokens ⟨origin, n⟩ ended'
          = lineTokens ⟨origin, n⟩ kept := (lineTokens_of_ended same').symm
        -- A carriage return that stays behind the cut is a blank.
        _ = lineTokens ⟨origin, n⟩ (beforeComment line) := lineTokens_of_ended keeps
        _ = lineTokens ⟨origin, n⟩ (beforeComment ended) :=
          lineTokens_of_ended (beforeComment_of_ended same)
        _ = lineTokens ⟨origin, n⟩ ended := lineTokens_beforeComment single'' plain'
    rw [cut, split', rowTokens_cons, rowTokens_cons, here]
    cases read : lineTokens ⟨origin, n⟩ ended with
    | error e => rfl
    | ok first =>
      have later : rowTokens origin (n + 1) (lines (cutComments false rest)) =
          rowTokens origin (n + 1) (lines rest) := by
        refine ih ?_
        intro i line here upTo
        refine plain (i + 1) line here ?_
        intro e failed
        have below := upTo e (rows_error_below read failed)
        omega
      exact congrArg (fun r => Except.map (first ++ ·) r) later

theorem free_concat (free : ¬ ['/', '/'] <:+: cs) : ¬ ['/', '/'] <:+: cs ++ ['\r'] := by
  intro holds
  rcases List.infix_concat_iff.mp holds with ⟨front, same⟩ | inner
  · rw [List.append_cons front '/' ['/']] at same
    have last : ['/'] = ['\r'] := (List.append_inj' same rfl).2
    exact absurd last (by decide)
  · exact free inner

theorem free_of_mem_lines (member : line ∈ lines (cutComments false cs)) :
    ¬ ['/', '/'] <:+: line := by
  induction cs using line_induction with
  | last whole single =>
    rw [cutComments_line single, lines_of_not_mem (not_mem_beforeComment single)] at member
    split at member
    · cases member
    · rw [List.mem_singleton.mp member]
      exact beforeComment_free whole
  | more whole rest single ih =>
    obtain ⟨kept, cut, keeps⟩ := cutComments_line_append single rest
    have single' := not_mem_kept single keeps
    obtain ⟨ended, split, same⟩ := lines_append_of_not_mem single' (cutComments false rest)
    have free : ¬ ['/', '/'] <:+: kept := by
      rcases keeps with rfl | rfl
      · exact beforeComment_free whole
      · exact free_concat (beforeComment_free whole)
    rw [cut, split] at member
    rcases List.mem_cons.mp member with rfl | member
    · rcases same with rfl | rfl
      · exact free
      · exact fun inner => free (inner.trans (List.prefix_append line ['\r']).isInfix)
    · exact ih member

theorem Lexes.text_isInfix (lexes : Lexes cs ls rest) (member : l ∈ ls) : l.text <:+: cs := by
  induction lexes with
  | done => cases member
  | @lexeme blanks cs rest first ls _ _ _ ih =>
    rcases List.mem_cons.mp member with rfl | member
    · exact List.infix_append' blanks l.text cs
    · have behind := (List.suffix_append first.text cs).trans (List.suffix_append blanks _)
      exact (ih member).trans behind.isInfix

theorem trim_isInfix (line : List Char) : trim line <:+: line := by
  have parts : trim line <+: line.dropWhile isBlank := List.rdropWhile_prefix isBlank _
  exact parts.isInfix.trans (List.dropWhile_suffix isBlank).isInfix

/-- A text without comments has no `//` in its tokens. -/
theorem free_of_cutComments
    (read : rowTokens origin n (lines (cutComments false cs)) = .ok tokens)
    (member : token ∈ tokens) : ¬ ['/', '/'] <:+: token.text.toList := by
  obtain ⟨i, line, ls, rest, l, here, lexes, among, rfl⟩ := exists_lexeme read member
  rw [Lexeme.text_token]
  intro inner
  have within := (lexes.text_isInfix among).trans (trim_isInfix line)
  exact free_of_mem_lines (List.mem_of_getElem? here) (inner.trans within)

theorem plain_of_free (read : rowTokens origin n (lines cs) = .ok tokens)
    (free : ∀ token ∈ tokens, ¬ ['/', '/'] <:+: token.text.toList)
    (here : (lines cs)[i]? = some line) : Plain line := by
  have single := not_mem_of_mem_lines (List.mem_of_getElem? here)
  obtain ⟨ls, lexemes, same⟩ := lineTokens_ok_iff.mp (lineTokens_of_rows read here)
  rw [lexemes_trim single] at lexemes
  obtain ⟨rest, lexes, ended⟩ := (lexemes_ok_iff single).mp lexemes
  intro ls' rest' lexes' closed l member
  obtain ⟨rfl, -⟩ := lexes.unique lexes' single (closed_of_ended ended) closed
  have among : l.token ⟨origin, n + i⟩ ∈ tokens.filter (·.place = ⟨origin, n + i⟩) := by
    rw [same]
    exact List.mem_map_of_mem member
  have free' := free _ (List.mem_of_mem_filter among)
  rwa [Lexeme.text_token] at free'

/-! ### Scripts without comments -/

/-- A script gives the same tokens, or the same error, without its comments, if no lexeme holds `//` on
the lines that are read. If it gives tokens, this is the only case. Where a token holds `//` or a blank,
it is a path, and there a point stands in front and a slash behind. -/
theorem tokenize_withoutComments (origin source : String) :
    ((∀ n line, (lines source.toList)[n]? = some line →
        (∀ e, tokenize origin source = .error e → n < e.place.line) → Plain line) →
      tokenize origin (withoutComments source) = tokenize origin source) ∧
    ∀ tokens, tokenize origin source = .ok tokens →
      (tokenize origin (withoutComments source) = .ok tokens ↔
        ∀ token ∈ tokens, ¬ ['/', '/'] <:+: token.text.toList) ∧
      ∀ token ∈ tokens, ∀ before c after, token.text.toList = before ++ c :: after →
        isBlank c = true ∨ c = '/' ∧ ['/'] <+: after →
          token.kind = .path ∧ ['.'] <:+ before ∧ ['/'] <+: after := by
  have rows (source : String) : tokenize origin source = rowTokens origin 1 (lines source.toList) :=
    rfl
  rw [rows, rows, withoutComments, String.toList_ofList]
  refine ⟨?_, ?_⟩
  · intro plain
    refine rowTokens_cutComments fun i line here upTo => plain i line here fun e failed => ?_
    have bound := upTo e failed
    omega
  · intro tokens read
    refine ⟨⟨?_, ?_⟩, ?_⟩
    · intro read' token member
      exact free_of_cutComments read' member
    · intro free
      rw [← read]
      exact rowTokens_cutComments fun i line here _ => plain_of_free read free here
    · intro token member before c after same inner
      obtain ⟨i, line, ls, rest, l, here, lexes, among, rfl⟩ := exists_lexeme read member
      obtain ⟨tail, begins⟩ := lexes.begins among
      have fits := begins.fits
      rw [Lexeme.text_token] at same
      have inner' : isOuter c = false := by
        rw [← Bool.not_eq_true]
        intro outer
        rcases inner with blank | ⟨slash, _⟩
        · rw [isBlank_of_isOuter outer] at blank
          cases blank
        · exact ne_slash_of_isOuter outer slash
      have path : l.kind = .path := by
        by_contra other
        have outer := isOuter_of_mem_shape other fits c (by simp [same])
        rw [inner'] at outer
        cases outer
      rw [path] at fits
      rcases between_of_mem_path fits before c after same inner' with ⟨rfl, noSlash⟩ | between
      · rcases inner with blank | ⟨_, slash⟩
        · exact absurd blank (by decide)
        · exact absurd slash noSlash
      · exact ⟨path, between⟩

/-- A path can hold `//`, so that cutting the line there leaves a point that starts no token. It can
hold a blank as well. -/
theorem comment_read_in_path :
    tokenize "t.mdl" "save .//a.b" = .ok
        [⟨.command .save, "save", ⟨"t.mdl", 1⟩⟩, ⟨.path, ".//a.b", ⟨"t.mdl", 1⟩⟩] ∧
      tokenize "t.mdl" (withoutComments "save .//a.b") = .error ⟨⟨"t.mdl", 1⟩, '.'⟩ ∧
      tokenize "t.mdl" ". /a.b" = .ok [⟨.path, ". /a.b", ⟨"t.mdl", 1⟩⟩] := by
  decide +kernel

end Flipbook.Script

import Flipbook.Proofs.Script.Rows
import Mathlib.Data.List.Infix

/-!
# Texts without comments

Of each line what stands in front of its first `//` is kept. The line ends stay as they are, so the
lines of what is left are the old lines up to their comments (`cutComments_line`,
`cutComments_line_append`).
-/

namespace Flipbook.Text

variable {cs rest line : List Char} {c : Char}

/-- A line up to its first `//`. -/
def beforeComment : List Char → List Char
  | [] => []
  | '/' :: '/' :: _ => []
  | c :: rest => c :: beforeComment rest

/-- A text without what stands on its lines from their first `//` on. The start of the text may stand
inside a comment. -/
def cutComments : Bool → List Char → List Char
  | _, [] => []
  | true, '\n' :: rest => '\n' :: cutComments false rest
  | true, '\r' :: '\n' :: rest => '\r' :: '\n' :: cutComments false rest
  | true, _ :: rest => cutComments true rest
  | false, '/' :: '/' :: rest => cutComments true rest
  | false, c :: rest => c :: cutComments false rest

def withoutComments (source : String) : String :=
  .ofList (cutComments false source.toList)

example : cutComments false "push // pop\r\npop".toList = "push \r\npop".toList := by decide

theorem beforeComment_cons (noComment : ¬ ['/', '/'] <+: c :: cs) :
    beforeComment (c :: cs) = c :: beforeComment cs := by
  refine beforeComment.eq_3 c cs ?_
  rintro rest rfl rfl
  exact noComment ⟨rest, rfl⟩

theorem beforeComment_of_comment (comment : ['/', '/'] <+: cs) : beforeComment cs = [] := by
  obtain ⟨rest, rfl⟩ := comment
  rfl

theorem beforeComment_isPrefix (cs : List Char) : beforeComment cs <+: cs := by
  induction cs with
  | nil => exact List.prefix_rfl
  | cons c cs ih =>
    by_cases comment : ['/', '/'] <+: c :: cs
    · rw [beforeComment_of_comment comment]
      exact List.nil_prefix
    · rw [beforeComment_cons comment]
      exact List.cons_prefix_cons.mpr ⟨rfl, ih⟩

theorem beforeComment_free (cs : List Char) : ¬ ['/', '/'] <:+: beforeComment cs := by
  induction cs with
  | nil => simp [beforeComment]
  | cons c cs ih =>
    by_cases comment : ['/', '/'] <+: c :: cs
    · rw [beforeComment_of_comment comment]
      simp
    · rw [beforeComment_cons comment]
      intro holds
      rcases List.infix_cons_iff.mp holds with starts | inner
      · exact comment (starts.trans (List.cons_prefix_cons.mpr ⟨rfl, beforeComment_isPrefix cs⟩))
      · exact ih inner

/-- A text that neither holds `//` nor ends with a slash stands in front of the first comment. -/
theorem beforeComment_append (free : ¬ ['/', '/'] <:+: cs) (noSlash : ¬ ['/'] <:+ cs)
    (rest : List Char) : beforeComment (cs ++ rest) = cs ++ beforeComment rest := by
  induction cs with
  | nil => rfl
  | cons c cs ih =>
    have free' : ¬ ['/', '/'] <:+: cs := fun inner => free (inner.trans (List.suffix_cons c cs).isInfix)
    have noSlash' : ¬ ['/'] <:+ cs := fun ends => noSlash (ends.trans (List.suffix_cons c cs))
    have noComment : ¬ ['/', '/'] <+: c :: (cs ++ rest) := by
      intro comment
      obtain ⟨rfl, next⟩ := List.cons_prefix_cons.mp comment
      cases cs with
      | nil => exact noSlash List.suffix_rfl
      | cons d cs =>
        obtain ⟨rfl, _⟩ := List.cons_prefix_cons.mp next
        exact free (List.prefix_append ['/', '/'] cs).isInfix
    rw [List.cons_append, beforeComment_cons noComment, ih free' noSlash', List.cons_append]

theorem not_comment_append {d : Char} (noComment : ¬ ['/', '/'] <+: c :: cs) (other : '/' ≠ d)
    (rest : List Char) : ¬ ['/', '/'] <+: c :: (cs ++ d :: rest) := by
  intro starts
  obtain ⟨rfl, next⟩ := List.cons_prefix_cons.mp starts
  cases cs with
  | nil => exact other (List.cons_prefix_cons.mp next).1
  | cons e cs =>
    obtain ⟨rfl, _⟩ := List.cons_prefix_cons.mp next
    exact noComment ⟨cs, rfl⟩

theorem beforeComment_of_ended {ended : List Char} (same : line = ended ∨ line = ended ++ ['\r']) :
    beforeComment line = beforeComment ended ∨
      beforeComment line = beforeComment ended ++ ['\r'] := by
  rcases same with rfl | rfl
  · exact .inl rfl
  · induction ended with
    | nil => exact .inr rfl
    | cons c cs ih =>
      by_cases comment : ['/', '/'] <+: c :: cs
      · have comment' := comment.trans (List.prefix_append (c :: cs) ['\r'])
        rw [beforeComment_of_comment comment, beforeComment_of_comment comment']
        exact .inl rfl
      · have comment' : ¬ ['/', '/'] <+: c :: (cs ++ ['\r']) :=
          not_comment_append comment (by decide) []
        rw [List.cons_append, beforeComment_cons comment, beforeComment_cons comment']
        rcases ih with same | same
        · exact .inl (congrArg (c :: ·) same)
        · exact .inr (congrArg (c :: ·) same)

/-! ### The lines of the text without comments -/

theorem cutComments_outside (noComment : ¬ ['/', '/'] <+: c :: cs) :
    cutComments false (c :: cs) = c :: cutComments false cs := by
  refine cutComments.eq_6 c cs ?_
  rintro rest rfl rfl
  exact noComment ⟨rest, rfl⟩

theorem cutComments_inside (plain : '\n' ≠ c) (noPair : ∀ rest, c = '\r' → cs ≠ '\n' :: rest) :
    cutComments true (c :: cs) = cutComments true cs :=
  cutComments.eq_4 c cs (plain ·.symm) noPair

theorem cutComments_rest_of_line (single : '\n' ∉ line) : cutComments true line = [] := by
  induction line with
  | nil => rfl
  | cons c cs ih =>
    obtain ⟨plain, single⟩ : '\n' ≠ c ∧ '\n' ∉ cs := by simpa using single
    have noPair : ∀ rest, c = '\r' → cs ≠ '\n' :: rest := by
      rintro rest - rfl
      exact single List.mem_cons_self
    rw [cutComments_inside plain noPair, ih single]

theorem cutComments_line (single : '\n' ∉ line) :
    cutComments false line = beforeComment line := by
  induction line with
  | nil => rfl
  | cons c cs ih =>
    have single' : '\n' ∉ cs := fun member => single (List.mem_cons_of_mem c member)
    by_cases comment : ['/', '/'] <+: c :: cs
    · rw [beforeComment_of_comment comment]
      obtain ⟨rest, same⟩ := comment
      cases same
      exact cutComments_rest_of_line fun member => single' (List.mem_cons_of_mem _ member)
    · rw [cutComments_outside comment, beforeComment_cons comment, ih single']

theorem cutComments_rest_append (single : '\n' ∉ line) (rest : List Char) :
    ∃ kept, cutComments true (line ++ '\n' :: rest) = kept ++ '\n' :: cutComments false rest ∧
      (kept = [] ∨ kept = ['\r']) := by
  induction line with
  | nil => exact ⟨[], rfl, .inl rfl⟩
  | cons c cs ih =>
    obtain ⟨plain, single⟩ : '\n' ≠ c ∧ '\n' ∉ cs := by simpa using single
    by_cases returns : c = '\r' ∧ cs = []
    · obtain ⟨rfl, rfl⟩ := returns
      exact ⟨['\r'], rfl, .inr rfl⟩
    · rw [List.cons_append, cutComments_inside plain (noPair_of_not_mem single returns rest)]
      exact ih single

/-- Of a line that a line feed ends, what stands in front of the comment is kept, and a carriage return
in front of the line feed. -/
theorem cutComments_line_append (single : '\n' ∉ line) (rest : List Char) :
    ∃ kept, cutComments false (line ++ '\n' :: rest) = kept ++ '\n' :: cutComments false rest ∧
      (kept = beforeComment line ∨ kept = beforeComment line ++ ['\r']) := by
  induction line with
  | nil => exact ⟨[], rfl, .inl rfl⟩
  | cons c cs ih =>
    have single' : '\n' ∉ cs := fun member => single (List.mem_cons_of_mem c member)
    by_cases comment : ['/', '/'] <+: c :: cs
    · rw [beforeComment_of_comment comment]
      obtain ⟨tail, same⟩ := comment
      cases same
      exact cutComments_rest_append (fun member => single' (List.mem_cons_of_mem _ member)) rest
    · have comment' : ¬ ['/', '/'] <+: c :: (cs ++ '\n' :: rest) :=
        not_comment_append comment (by decide) rest
      obtain ⟨kept, split, same⟩ := ih single'
      refine ⟨c :: kept, ?_, ?_⟩
      · rw [List.cons_append, cutComments_outside comment', split, List.cons_append]
      · rw [beforeComment_cons comment]
        rcases same with rfl | rfl
        · exact .inl rfl
        · exact .inr rfl

end Flipbook.Text

import Flipbook.Script.Lexeme
import Mathlib.Computability.Language
import Mathlib.Data.List.TakeWhile

/-!
# Shapes

The shapes of numbers, paths and words, as languages. Each pattern gives the longest part at the
start of a text that has its shape (`number_munches`, `path_munches`, `word_munches`), and no part at
all only if no part has it.
-/

namespace Flipbook.Script.Pattern

open Text Computability

variable {p : Char → Bool} {c : Char} {cs ds rest text other : List Char} {shape : Language Char}

/-- One character of a class. -/
def one (p : Char → Bool) : Language Char :=
  {cs | ∃ c, p c = true ∧ cs = [c]}

/-- Characters of a class, at least one. -/
def run (p : Char → Bool) : Language Char :=
  one p * (one p)∗

def magnitudeShape : Language Char :=
  run isDigit * (1 + one (· == '.')) * (one isDigit)∗ + one (· == '.') * run isDigit

def numberShape : Language Char :=
  (1 + one (· == '-')) * magnitudeShape

/-- The point in the middle stands for any character. -/
def directoryShape : Language Char :=
  one (· == '.') * one (· == '/') + one (· == '.') * one (· != '\n') * one (· == '/') +
    run isFileChar * one (· == '/')

def fileShape : Language Char :=
  run isFileChar * one (· == '.') * run isAlphanumeric

def pathShape : Language Char :=
  directoryShape∗ * fileShape

def wordShape : Language Char :=
  one isNameStart * (one isNameChar)∗

/-! ### Runs of a class -/

theorem mem_one_beq : cs ∈ one (· == c) ↔ cs = [c] := by
  constructor
  · rintro ⟨d, same, rfl⟩
    rw [beq_iff_eq.mp same]
  · intro same
    exact ⟨c, beq_self_eq_true c, same⟩

theorem mem_kstar_one : cs ∈ (one p)∗ ↔ ∀ c ∈ cs, p c = true := by
  rw [Language.mem_kstar]
  constructor
  · rintro ⟨parts, rfl, each⟩ c member
    obtain ⟨part, among, inside⟩ := List.mem_flatten.mp member
    obtain ⟨d, holds, rfl⟩ := each part among
    rw [List.mem_singleton.mp inside]
    exact holds
  · intro all
    refine ⟨cs.map fun c => [c], (List.flatMap_singleton' cs).symm, ?_⟩
    intro part member
    obtain ⟨c, among, rfl⟩ := List.mem_map.mp member
    exact ⟨c, all c among, rfl⟩

theorem mem_run : cs ∈ run p ↔ cs ≠ [] ∧ ∀ c ∈ cs, p c = true := by
  rw [run, Language.mem_mul]
  constructor
  · rintro ⟨_, ⟨c, holds, rfl⟩, more, all, rfl⟩
    rw [mem_kstar_one] at all
    exact ⟨by simp, by simpa [holds] using all⟩
  · rintro ⟨filled, all⟩
    cases cs with
    | nil => exact absurd rfl filled
    | cons c more =>
      have first := all c List.mem_cons_self
      exact ⟨[c], ⟨c, first, rfl⟩, more,
        mem_kstar_one.mpr fun d member => all d (List.mem_cons_of_mem c member), rfl⟩

theorem prefix_takeWhile (inside : ∀ c ∈ ds, p c = true) (starts : ds <+: cs) :
    ds <+: cs.takeWhile p := by
  obtain ⟨rest, rfl⟩ := starts
  rw [List.takeWhile_append_of_pos inside]
  exact List.prefix_append ..

theorem takeWhile_stops (inside : ∀ c ∈ ds, p c = true) (stop : p c = false) :
    (ds ++ c :: rest).takeWhile p = ds := by
  rw [List.takeWhile_append_of_pos inside, List.takeWhile_cons_of_neg (by simp [stop]),
    List.append_nil]

theorem dropWhile_stops (inside : ∀ c ∈ ds, p c = true) (stop : p c = false) :
    (ds ++ c :: rest).dropWhile p = c :: rest := by
  rw [List.dropWhile_append_of_pos inside, List.dropWhile_cons_of_neg (by simp [stop])]

/-! ### Longest matches -/

/-- The longest part of a shape at the start of a text. -/
structure Longest (shape : Language Char) (cs text : List Char) : Prop where
  fits : text ∈ shape
  starts : text <+: cs
  longest : ∀ other ∈ shape, other <+: cs → other <+: text

/-- No part at the start of a text has a shape. -/
def NoMatch (shape : Language Char) (cs : List Char) : Prop :=
  ∀ text ∈ shape, ¬ text <+: cs

theorem NoMatch.restrict {short : List Char} (noMatch : NoMatch shape cs) (starts : short <+: cs) :
    NoMatch shape short := by
  intro text fits starts'
  exact noMatch text fits (starts'.trans starts)

theorem Longest.restrict {short : List Char} (longest : Longest shape cs text)
    (inside : text <+: short) (starts : short <+: cs) : Longest shape short text := by
  refine ⟨longest.fits, inside, ?_⟩
  intro other fits starts'
  exact longest.longest other fits (starts'.trans starts)

/-- The longest part of a shape at the start of a text, or nothing if there is no part of it. -/
structure Munches (shape : Language Char) (cs text : List Char) : Prop where
  fits : text ≠ [] → text ∈ shape
  starts : text <+: cs
  longest : ∀ other ∈ shape, other <+: cs → other <+: text

namespace Munches

theorem eq_nil_iff (munches : Munches shape cs text) (filled : [] ∉ shape) :
    text = [] ↔ NoMatch shape cs := by
  constructor
  · intro empty other fits starts
    have within := munches.longest other fits starts
    rw [empty] at within
    rw [List.prefix_nil.mp within] at fits
    exact filled fits
  · intro noMatch
    by_contra filled'
    exact noMatch text (munches.fits filled') munches.starts

theorem longest_iff (munches : Munches shape cs text) (filled : [] ∉ shape) :
    Longest shape cs other ↔ text = other ∧ other ≠ [] := by
  constructor
  · intro best
    have within := munches.longest other best.fits best.starts
    have nonempty : other ≠ [] := by
      intro empty
      rw [empty] at best
      exact filled best.fits
    have munched : text ≠ [] := by
      intro empty
      rw [empty] at within
      exact nonempty (List.prefix_nil.mp within)
    have within' := best.longest text (munches.fits munched) munches.starts
    exact ⟨within'.eq_of_length_le within.length_le, nonempty⟩
  · rintro ⟨rfl, nonempty⟩
    exact ⟨munches.fits nonempty, munches.starts, munches.longest⟩

end Munches

/-! ### Numbers -/

theorem mem_magnitudeShape : text ∈ magnitudeShape ↔
    text ∈ run isDigit ∨
    ∃ whole fraction, text = whole ++ '.' :: fraction ∧ (∀ c ∈ whole, isDigit c = true) ∧
      (∀ c ∈ fraction, isDigit c = true) ∧ ¬ (whole = [] ∧ fraction = []) := by
  simp only [magnitudeShape, Language.mem_add, Language.mem_mul, Language.mem_one, mem_one_beq,
    mem_kstar_one]
  constructor
  · rintro (⟨_, ⟨whole, digits, point, rfl | rfl, rfl⟩, fraction, digits', rfl⟩ |
      ⟨_, rfl, fraction, digits, rfl⟩)
    · rw [mem_run] at digits
      refine .inl (mem_run.mpr ⟨by simp [digits.1], ?_⟩)
      simpa [or_imp, forall_and] using And.intro digits.2 digits'
    · rw [mem_run] at digits
      exact .inr ⟨whole, fraction, by simp, digits.2, digits', fun empty => digits.1 empty.1⟩
    · rw [mem_run] at digits
      exact .inr ⟨[], fraction, rfl, by simp, digits.2, fun empty => digits.1 empty.2⟩
  · rintro (digits | ⟨whole, fraction, rfl, digits, digits', filled⟩)
    · exact .inl ⟨text, ⟨text, digits, [], .inl rfl, by simp⟩, [], by simp, by simp⟩
    · by_cases empty : whole = []
      · rw [empty]
        exact .inr ⟨['.'], rfl, fraction, mem_run.mpr ⟨fun e => filled ⟨empty, e⟩, digits'⟩, rfl⟩
      · exact .inl ⟨whole ++ ['.'], ⟨whole, mem_run.mpr ⟨empty, digits⟩, ['.'], .inr rfl, rfl⟩,
          fraction, digits', by simp⟩

theorem isDigit_point : isDigit '.' = false := by decide

theorem magnitude_point (digits : ∀ c ∈ ds, isDigit c = true) (rest : List Char) :
    magnitude (ds ++ '.' :: rest) =
      if ds = [] ∧ rest.takeWhile isDigit = [] then [] else ds ++ '.' :: rest.takeWhile isDigit := by
  unfold magnitude
  rw [takeWhile_stops digits isDigit_point, dropWhile_stops digits isDigit_point]
  rfl

theorem magnitude_whole (whole : ∀ rest, cs.dropWhile isDigit ≠ '.' :: rest) :
    magnitude cs = cs.takeWhile isDigit := by
  unfold magnitude
  split
  · next point => exact absurd point (whole _)
  · rfl

/-- A match goes on behind the point as far as there are digits. -/
theorem prefix_of_magnitudeShape (digits : ∀ c ∈ ds, isDigit c = true)
    (fits : other ∈ magnitudeShape) (starts : other <+: ds ++ '.' :: rest) :
    other <+: ds ++ '.' :: rest.takeWhile isDigit ∧ ¬ (ds = [] ∧ rest.takeWhile isDigit = []) := by
  rcases mem_magnitudeShape.mp fits with whole | ⟨whole, fraction, rfl, digits', inside, filled⟩
  · obtain ⟨filled, digits'⟩ := mem_run.mp whole
    have within := prefix_takeWhile digits' starts
    rw [takeWhile_stops digits isDigit_point] at within
    refine ⟨within.trans (List.prefix_append ..), ?_⟩
    intro empty
    rw [empty.1] at within
    exact filled (List.prefix_nil.mp within)
  · obtain ⟨tail, same⟩ := starts
    rw [List.append_assoc, List.cons_append] at same
    have wholes := congrArg (List.takeWhile isDigit) same
    have points := congrArg (List.dropWhile isDigit) same
    rw [takeWhile_stops digits isDigit_point, takeWhile_stops digits' isDigit_point] at wholes
    rw [dropWhile_stops digits isDigit_point, dropWhile_stops digits' isDigit_point] at points
    have within := prefix_takeWhile inside ⟨tail, (List.cons.inj points).2⟩
    rw [wholes] at filled ⊢
    refine ⟨(List.prefix_append_right_inj ds).mpr (List.cons_prefix_cons.mpr ⟨rfl, within⟩), ?_⟩
    intro empty
    rw [empty.2] at within
    exact filled ⟨empty.1, List.prefix_nil.mp within⟩

theorem magnitude_munches (cs : List Char) : Munches magnitudeShape cs (magnitude cs) := by
  have parts := List.takeWhile_append_dropWhile (p := isDigit) (l := cs)
  have digits : ∀ c ∈ cs.takeWhile isDigit, isDigit c = true := fun c => List.mem_takeWhile_imp
  by_cases point : ∃ rest, cs.dropWhile isDigit = '.' :: rest
  · obtain ⟨rest, point⟩ := point
    have digits' : ∀ c ∈ rest.takeWhile isDigit, isDigit c = true :=
      fun c => List.mem_takeWhile_imp
    rw [point] at parts
    rw [← parts, magnitude_point digits]
    generalize cs.takeWhile isDigit = ds at digits
    split
    · next empty =>
      refine ⟨fun filled => absurd rfl filled, List.nil_prefix, ?_⟩
      intro other fits starts
      exact absurd empty (prefix_of_magnitudeShape digits fits starts).2
    · next filled =>
      refine ⟨fun _ => ?_, ?_, ?_⟩
      · exact mem_magnitudeShape.mpr (.inr ⟨ds, _, rfl, digits, digits', filled⟩)
      · refine (List.prefix_append_right_inj ds).mpr (List.cons_prefix_cons.mpr ⟨rfl, ?_⟩)
        exact List.takeWhile_prefix _
      · intro other fits starts
        exact (prefix_of_magnitudeShape digits fits starts).1
  · have whole : ∀ rest, cs.dropWhile isDigit ≠ '.' :: rest := fun rest same => point ⟨rest, same⟩
    rw [magnitude_whole whole]
    refine ⟨fun filled => ?_, List.takeWhile_prefix _, ?_⟩
    · exact mem_magnitudeShape.mpr (.inl (mem_run.mpr ⟨filled, digits⟩))
    · intro other fits starts
      rcases mem_magnitudeShape.mp fits with digits | ⟨whole', fraction, rfl, digits', -, -⟩
      · exact prefix_takeWhile (mem_run.mp digits).2 starts
      · obtain ⟨tail, rfl⟩ := starts
        refine absurd ?_ (whole (fraction ++ tail))
        rw [List.append_assoc, List.cons_append, dropWhile_stops digits' isDigit_point]

theorem nil_not_mem_magnitudeShape : [] ∉ magnitudeShape := by
  intro fits
  rcases mem_magnitudeShape.mp fits with digits | ⟨whole, fraction, empty, -⟩
  · exact (mem_run.mp digits).1 rfl
  · simp at empty

theorem mem_numberShape :
    text ∈ numberShape ↔ text ∈ magnitudeShape ∨ ∃ digits ∈ magnitudeShape, text = '-' :: digits := by
  simp only [numberShape, Language.mem_mul, Language.mem_add, Language.mem_one, mem_one_beq]
  constructor
  · rintro ⟨_, rfl | rfl, digits, fits, rfl⟩
    · exact .inl fits
    · exact .inr ⟨digits, fits, rfl⟩
  · rintro (fits | ⟨digits, fits, rfl⟩)
    · exact ⟨[], .inl rfl, text, fits, rfl⟩
    · exact ⟨['-'], .inr rfl, digits, fits, rfl⟩

theorem nil_not_mem_numberShape : [] ∉ numberShape := by
  intro fits
  rcases mem_numberShape.mp fits with fits | ⟨digits, -, empty⟩
  · exact nil_not_mem_magnitudeShape fits
  · cases empty

theorem number_munches (cs : List Char) : Munches numberShape cs (number cs) := by
  unfold number
  split
  · next rest =>
    have munches := magnitude_munches rest
    -- The sign is never left out of a match.
    have noSign : NoMatch magnitudeShape ('-' :: rest) := by
      have unread : magnitude ('-' :: rest) = [] := by
        have minus : isDigit '-' = false := by decide
        unfold magnitude
        simp [minus]
      exact (magnitude_munches ('-' :: rest)).eq_nil_iff nil_not_mem_magnitudeShape |>.mp unread
    generalize magnitude rest = digits at munches
    have within : ∀ other ∈ numberShape, other <+: '-' :: rest → 
        ∃ more ∈ magnitudeShape, other = '-' :: more ∧ more <+: digits := by
      intro other fits starts
      rcases mem_numberShape.mp fits with fits' | ⟨more, fits', rfl⟩
      · exact absurd starts (noSign other fits')
      · exact ⟨more, fits', rfl, munches.longest more fits' (List.cons_prefix_cons.mp starts).2⟩
    cases digits with
    | nil =>
      refine ⟨fun filled => absurd rfl filled, List.nil_prefix, ?_⟩
      intro other fits starts
      obtain ⟨more, fits, -, empty⟩ := within other fits starts
      rw [List.prefix_nil.mp empty] at fits
      exact absurd fits nil_not_mem_magnitudeShape
    | cons d digits =>
      refine ⟨fun _ => ?_, List.cons_prefix_cons.mpr ⟨rfl, munches.starts⟩, ?_⟩
      · exact mem_numberShape.mpr (.inr ⟨_, munches.fits (List.cons_ne_nil d digits), rfl⟩)
      · intro other fits starts
        obtain ⟨more, -, rfl, inside⟩ := within other fits starts
        exact List.cons_prefix_cons.mpr ⟨rfl, inside⟩
  · next unsigned =>
    have munches := magnitude_munches cs
    refine ⟨fun filled => mem_numberShape.mpr (.inl (munches.fits filled)), munches.starts, ?_⟩
    intro other fits starts
    rcases mem_numberShape.mp fits with fits | ⟨more, fits, rfl⟩
    · exact munches.longest other fits starts
    · obtain ⟨tail, same⟩ := starts
      exact absurd same.symm (unsigned _)

/-! ### Words -/

theorem mem_wordShape : text ∈ wordShape ↔
    ∃ c rest, text = c :: rest ∧ isNameStart c = true ∧ ∀ d ∈ rest, isNameChar d = true := by
  rw [wordShape, Language.mem_mul]
  constructor
  · rintro ⟨_, ⟨c, first, rfl⟩, rest, inside, rfl⟩
    exact ⟨c, rest, rfl, first, mem_kstar_one.mp inside⟩
  · rintro ⟨c, rest, rfl, first, inside⟩
    exact ⟨[c], ⟨c, first, rfl⟩, rest, mem_kstar_one.mpr inside, rfl⟩

theorem nil_not_mem_wordShape : [] ∉ wordShape := by
  intro fits
  obtain ⟨c, rest, empty, -⟩ := mem_wordShape.mp fits
  cases empty

theorem word_munches (cs : List Char) : Munches wordShape cs (word cs) := by
  unfold word
  split
  · next c rest =>
    have inside : ∀ d ∈ rest.takeWhile isNameChar, isNameChar d = true :=
      fun d => List.mem_takeWhile_imp
    split
    · next first =>
      refine ⟨fun _ => mem_wordShape.mpr ⟨c, _, rfl, first, inside⟩,
        List.cons_prefix_cons.mpr ⟨rfl, List.takeWhile_prefix _⟩, ?_⟩
      intro other fits starts
      obtain ⟨d, more, rfl, -, inside⟩ := mem_wordShape.mp fits
      obtain ⟨rfl, within⟩ := List.cons_prefix_cons.mp starts
      exact List.cons_prefix_cons.mpr ⟨rfl, prefix_takeWhile inside within⟩
    · next first =>
      refine ⟨fun filled => absurd rfl filled, List.nil_prefix, ?_⟩
      intro other fits starts
      obtain ⟨d, more, rfl, first', -⟩ := mem_wordShape.mp fits
      obtain ⟨rfl, -⟩ := List.cons_prefix_cons.mp starts
      exact absurd first' first
  · refine ⟨fun filled => absurd rfl filled, List.nil_prefix, ?_⟩
    intro other _ starts
    exact starts

/-! ### Paths -/

theorem mem_directoryShape : text ∈ directoryShape ↔
    text = ['.', '/'] ∨ (∃ c, text = ['.', c, '/'] ∧ c ≠ '\n') ∨
      ∃ name ∈ run isFileChar, text = name ++ ['/'] := by
  simp only [directoryShape, Language.mem_add, Language.mem_mul, mem_one_beq]
  constructor
  · rintro ((⟨_, rfl, _, rfl, rfl⟩ | ⟨_, ⟨_, rfl, _, ⟨c, other, rfl⟩, rfl⟩, _, rfl, rfl⟩) |
      ⟨name, inside, _, rfl, rfl⟩)
    · exact .inl rfl
    · exact .inr (.inl ⟨c, rfl, bne_iff_ne.mp other⟩)
    · exact .inr (.inr ⟨name, inside, rfl⟩)
  · rintro (rfl | ⟨c, rfl, other⟩ | ⟨name, inside, rfl⟩)
    · exact .inl (.inl ⟨_, rfl, _, rfl, rfl⟩)
    · exact .inl (.inr ⟨_, ⟨_, rfl, _, ⟨c, bne_iff_ne.mpr other, rfl⟩, rfl⟩, _, rfl, rfl⟩)
    · exact .inr ⟨name, inside, _, rfl, rfl⟩

theorem mem_fileShape : text ∈ fileShape ↔
    ∃ stem ∈ run isFileChar, ∃ extension ∈ run isAlphanumeric,
      text = stem ++ '.' :: extension := by
  simp only [fileShape, Language.mem_mul, mem_one_beq]
  constructor
  · rintro ⟨_, ⟨stem, inside, _, rfl, rfl⟩, extension, inside', rfl⟩
    exact ⟨stem, inside, extension, inside', by simp⟩
  · rintro ⟨stem, inside, extension, inside', rfl⟩
    exact ⟨_, ⟨stem, inside, _, rfl, rfl⟩, extension, inside', by simp⟩

theorem mem_pathShape : text ∈ pathShape ↔
    text ∈ fileShape ∨ ∃ d ∈ directoryShape, ∃ more ∈ pathShape, text = d ++ more := by
  have unrolled : pathShape = fileShape + directoryShape * pathShape := by
    rw [pathShape, ← mul_assoc, ← one_add_mul, Language.one_add_self_mul_kstar_eq_kstar]
  rw [unrolled, Language.mem_add, Language.mem_mul, ← unrolled]
  simp only [eq_comm]

/-- Induction along the directories of a path. -/
theorem path_induction {motive : List Char → Prop} (file : ∀ text ∈ fileShape, motive text)
    (inner : ∀ d ∈ directoryShape, ∀ more ∈ pathShape, motive more → motive (d ++ more))
    (fits : text ∈ pathShape) : motive text := by
  obtain ⟨_, ⟨directories, rfl, each⟩, last, named, rfl⟩ := Language.mem_mul.mp fits
  clear fits
  induction directories with
  | nil => exact file last named
  | cons d directories ih =>
    rw [List.flatten_cons, List.append_assoc]
    have each' : ∀ d ∈ directories, d ∈ directoryShape :=
      fun other member => each other (List.mem_cons_of_mem d member)
    refine inner d (each d List.mem_cons_self) _ ?_ (ih each')
    exact Language.append_mem_mul (Language.join_mem_kstar each') named

theorem namedDirectory_eq {name : List Char} (filled : name ≠ [])
    (inside : ∀ c ∈ name, isFileChar c = true) (rest : List Char) :
    namedDirectory (name ++ '/' :: rest) = name ++ ['/'] := by
  have slash : isFileChar '/' = false := by decide
  unfold namedDirectory
  rw [takeWhile_stops inside slash, dropWhile_stops inside slash]
  cases name with
  | nil => exact absurd rfl filled
  | cons => rfl

theorem ne_point_of_isFileChar (inside : isFileChar c = true) : c ≠ '.' := by
  intro point
  rw [point] at inside
  exact absurd inside (by decide)

theorem directory_named (first : isFileChar c = true) (rest : List Char) :
    directory (c :: rest) = namedDirectory (c :: rest) := by
  have noPoint := ne_point_of_isFileChar first
  unfold directory
  split
  · next same => exact absurd (List.cons.inj same).1 noPoint
  · next same => exact absurd (List.cons.inj same).1 noPoint
  · next same => exact absurd (List.cons.inj same).1 noPoint
  · rfl

theorem directory_here (noSlash : c ≠ '/') (rest : List Char) :
    directory ('.' :: '/' :: c :: rest) = ['.', '/'] := by
  unfold directory
  split
  · next same =>
    cases same
    exact absurd rfl noSlash
  · rfl
  · next same =>
    cases same
    exact absurd rfl noSlash
  · next other _ => exact absurd rfl (other _)

theorem directory_any (c : Char) (rest : List Char) :
    directory ('.' :: c :: '/' :: rest) = ['.', c, '/'] := by
  unfold directory
  split
  · next same =>
    cases same
    rfl
  · next other same =>
    cases same
    exact absurd rfl (other _)
  · next same =>
    cases same
    rfl
  · next other => exact absurd rfl (other _ _)

theorem exists_head_of_run (inside : text ∈ run p) :
    ∃ c rest, text = c :: rest ∧ p c = true ∧ ∀ d ∈ rest, p d = true := by
  obtain ⟨filled, all⟩ := mem_run.mp inside
  cases text with
  | nil => exact absurd rfl filled
  | cons c rest =>
    exact ⟨c, rest, rfl, all c List.mem_cons_self, fun d member => all d (List.mem_cons_of_mem c member)⟩

theorem path_head (fits : text ∈ pathShape) :
    ∃ c rest, text = c :: rest ∧ (c = '.' ∨ isFileChar c = true) := by
  rcases mem_pathShape.mp fits with file | ⟨d, directory, more, -, rfl⟩
  · obtain ⟨stem, inside, extension, -, rfl⟩ := mem_fileShape.mp file
    obtain ⟨c, stem, rfl, first, -⟩ := exists_head_of_run inside
    exact ⟨c, _, rfl, .inr first⟩
  · rcases mem_directoryShape.mp directory with rfl | ⟨c, rfl, -⟩ | ⟨name, inside, rfl⟩
    · exact ⟨'.', _, rfl, .inl rfl⟩
    · exact ⟨'.', _, rfl, .inl rfl⟩
    · obtain ⟨c, name, rfl, first, -⟩ := exists_head_of_run inside
      exact ⟨c, _, rfl, .inr first⟩

theorem path_last (fits : text ∈ pathShape) :
    ∃ front c, text = front ++ [c] ∧ isAlphanumeric c = true := by
  refine path_induction
    (motive := fun text => ∃ front c, text = front ++ [c] ∧ isAlphanumeric c = true) ?_ ?_ fits
  · intro file named
    obtain ⟨stem, -, extension, inside, rfl⟩ := mem_fileShape.mp named
    obtain ⟨filled, all⟩ := mem_run.mp inside
    obtain ⟨front, c, rfl⟩ := (List.eq_nil_or_concat' extension).resolve_left filled
    refine ⟨stem ++ '.' :: front, c, by simp, ?_⟩
    exact all c (List.mem_append_right front (List.mem_singleton_self c))
  · intro d _ more _ ends
    obtain ⟨front, c, rfl, last⟩ := ends
    exact ⟨d ++ front, c, (List.append_assoc ..).symm, last⟩

theorem point_mem_of_path (fits : text ∈ pathShape) : '.' ∈ text := by
  refine path_induction ?_ ?_ fits
  · intro file named
    obtain ⟨stem, -, extension, -, rfl⟩ := mem_fileShape.mp named
    exact List.mem_append_right stem List.mem_cons_self
  · intro d _ more _ point
    exact List.mem_append_right d point

/-- A path does not go on with a slash, so `./` is a directory only in front of something else. -/
theorem directory_of_shape {d more : List Char} (fits : d ∈ directoryShape)
    (fits' : more ∈ pathShape) (rest : List Char) : directory (d ++ (more ++ rest)) = d := by
  rcases mem_directoryShape.mp fits with rfl | ⟨c, rfl, -⟩ | ⟨name, inside, rfl⟩
  · obtain ⟨e, more, rfl, first⟩ := path_head fits'
    have noSlash : e ≠ '/' := by
      rintro rfl
      revert first
      decide
    exact directory_here noSlash _
  · exact directory_any c _
  · obtain ⟨filled, all⟩ := mem_run.mp inside
    have named := namedDirectory_eq filled all (more ++ rest)
    obtain ⟨c, name, rfl, first, -⟩ := exists_head_of_run inside
    rw [List.append_assoc, List.cons_append, directory_named first]
    exact named

theorem path_of_file (noDirectory : directory cs = []) : path cs = fileName cs := by
  rw [path.eq_def]
  split
  · rfl
  · next starts =>
    rw [noDirectory] at starts
    cases starts

theorem path_of_directory {d : Char} {ds : List Char} (starts : directory cs = d :: ds) :
    path cs = match path (cs.drop (ds.length + 1)) with
      | [] => []
      | file => d :: ds ++ file := by
  rw [path.eq_def]
  split
  · next stopped =>
    rw [stopped] at starts
    cases starts
  · next same =>
    rw [same] at starts
    cases starts
    rfl

theorem namedDirectory_isPrefix (cs : List Char) : namedDirectory cs <+: cs := by
  unfold namedDirectory
  split
  · next whole slash =>
    have parts := List.takeWhile_append_dropWhile (p := isFileChar) (l := cs)
    rw [whole, slash] at parts
    rw [← parts]
    exact (List.prefix_append_right_inj _).mpr (List.cons_prefix_cons.mpr ⟨rfl, List.nil_prefix⟩)
  · exact List.nil_prefix

theorem namedDirectory_fits (filled : namedDirectory cs ≠ []) :
    ∃ name ∈ run isFileChar, namedDirectory cs = name ++ ['/'] := by
  unfold namedDirectory at filled ⊢
  split at filled
  · next c name _ whole _ =>
    refine ⟨c :: name, mem_run.mpr ⟨List.cons_ne_nil c name, ?_⟩, rfl⟩
    rw [← whole]
    exact fun c => List.mem_takeWhile_imp
  · exact absurd rfl filled

theorem directory_isPrefix (cs : List Char) : directory cs <+: cs := by
  unfold directory
  split
  · simp
  · simp
  · simp
  · exact namedDirectory_isPrefix cs

theorem directory_fits (single : '\n' ∉ cs) (filled : directory cs ≠ []) :
    directory cs ∈ directoryShape := by
  rw [mem_directoryShape]
  unfold directory at filled ⊢
  split at filled
  · exact .inr (.inl ⟨'/', rfl, by decide⟩)
  · exact .inl rfl
  · next c _ _ =>
    refine .inr (.inl ⟨c, rfl, ?_⟩)
    rintro rfl
    simp at single
  · exact .inr (.inr (namedDirectory_fits filled))

theorem fileName_of_point {stem : List Char} (filled : stem ≠ [])
    (inside : ∀ c ∈ stem, isFileChar c = true) (rest : List Char) :
    fileName (stem ++ '.' :: rest) =
      if rest.takeWhile isAlphanumeric = [] then []
      else stem ++ '.' :: rest.takeWhile isAlphanumeric := by
  have point : isFileChar '.' = false := by decide
  unfold fileName
  rw [takeWhile_stops inside point, dropWhile_stops inside point]
  cases stem with
  | nil => exact absurd rfl filled
  | cons c stem =>
    cases extension : rest.takeWhile isAlphanumeric with
    | nil => simp [extension]
    | cons e more => simp [extension]

theorem fileName_eq_nil_or (cs : List Char) : fileName cs = [] ∨
    ∃ stem rest, cs = stem ++ '.' :: rest ∧ stem ≠ [] ∧ ∀ c ∈ stem, isFileChar c = true := by
  unfold fileName
  split
  · next c stem rest whole point =>
    have parts := List.takeWhile_append_dropWhile (p := isFileChar) (l := cs)
    rw [whole, point] at parts
    refine .inr ⟨c :: stem, rest, parts.symm, List.cons_ne_nil c stem, ?_⟩
    rw [← whole]
    exact fun c => List.mem_takeWhile_imp
  · exact .inl rfl

theorem file_munches (cs : List Char) : Munches fileShape cs (fileName cs) := by
  have longest : ∀ other ∈ fileShape, other <+: cs → other <+: fileName cs := by
    intro other fits starts
    obtain ⟨stem, inside, extension, inside', rfl⟩ := mem_fileShape.mp fits
    obtain ⟨filled, inside⟩ := mem_run.mp inside
    obtain ⟨filled', inside'⟩ := mem_run.mp inside'
    obtain ⟨tail, rfl⟩ := starts
    have within := prefix_takeWhile inside' (List.prefix_append extension tail)
    have filled'' : (extension ++ tail).takeWhile isAlphanumeric ≠ [] := by
      intro empty
      rw [empty] at within
      exact filled' (List.prefix_nil.mp within)
    rw [List.append_assoc, List.cons_append, fileName_of_point filled inside, if_neg filled'']
    exact (List.prefix_append_right_inj stem).mpr (List.cons_prefix_cons.mpr ⟨rfl, within⟩)
  rcases fileName_eq_nil_or cs with stopped | ⟨stem, rest, rfl, filled, inside⟩
  · rw [stopped] at longest ⊢
    exact ⟨fun filled => absurd rfl filled, List.nil_prefix, longest⟩
  · refine ⟨fun filled' => ?_, ?_, longest⟩
    · rw [fileName_of_point filled inside] at filled' ⊢
      split at filled'
      · exact absurd rfl filled'
      · next extended =>
        rw [if_neg extended]
        exact mem_fileShape.mpr ⟨stem, mem_run.mpr ⟨filled, inside⟩, _,
          mem_run.mpr ⟨extended, fun c => List.mem_takeWhile_imp⟩, rfl⟩
    · rw [fileName_of_point filled inside]
      split
      · exact List.nil_prefix
      · refine (List.prefix_append_right_inj stem).mpr (List.cons_prefix_cons.mpr ⟨rfl, ?_⟩)
        exact List.takeWhile_prefix _

theorem nil_not_mem_pathShape : [] ∉ pathShape := by
  intro fits
  obtain ⟨c, rest, empty, -⟩ := path_head fits
  cases empty

theorem nil_not_mem_directoryShape : [] ∉ directoryShape := by
  intro fits
  rcases mem_directoryShape.mp fits with empty | ⟨c, empty, -⟩ | ⟨name, -, empty⟩
  · cases empty
  · cases empty
  · simp at empty

/-- A file name is not read as a directory. -/
theorem directory_of_file (fits : other ∈ fileShape) (rest : List Char) :
    directory (other ++ rest) = [] := by
  have point : isFileChar '.' = false := by decide
  obtain ⟨stem, inside, extension, -, rfl⟩ := mem_fileShape.mp fits
  have all := (mem_run.mp inside).2
  have ends : (stem ++ '.' :: (extension ++ rest)).dropWhile isFileChar =
      '.' :: (extension ++ rest) := dropWhile_stops all point
  obtain ⟨c, stem, rfl, first, -⟩ := exists_head_of_run inside
  rw [List.append_assoc, List.cons_append, List.cons_append, directory_named first]
  rw [List.cons_append] at ends
  unfold namedDirectory
  rw [ends]
  split
  · next same => cases same
  · rfl

theorem path_munches (single : '\n' ∉ cs) : Munches pathShape cs (path cs) := by
  induction cs using path.induct with
  | case1 cs noDirectory =>
    have munches := file_munches cs
    rw [path_of_file noDirectory]
    refine ⟨fun filled => ?_, munches.starts, ?_⟩
    · exact mem_pathShape.mpr (.inl (munches.fits filled))
    · intro other fits starts
      rcases mem_pathShape.mp fits with file | ⟨d, inside, more, fits', rfl⟩
      · exact munches.longest other file starts
      · obtain ⟨tail, rfl⟩ := starts
        rw [List.append_assoc, directory_of_shape inside fits'] at noDirectory
        rw [noDirectory] at inside
        exact absurd inside nil_not_mem_directoryShape
  | case2 cs d ds starts' _ ih | case3 cs d ds starts' _ ih =>
    have starts := directory_isPrefix cs
    have inside := directory_fits single (by simp [starts'])
    rw [starts'] at starts inside
    obtain ⟨rest, rfl⟩ := starts
    have left : (d :: ds ++ rest).drop (ds.length + 1) = rest := by simp
    rw [left] at ih
    have munches := ih fun member => single (List.mem_append_right _ member)
    -- Every match starts with the directory that is read, so it is enough to look behind it.
    have within : ∀ other ∈ pathShape, other <+: d :: ds ++ rest →
        ∃ more ∈ pathShape, other = d :: ds ++ more ∧ more <+: path rest := by
      intro other fits starts
      obtain ⟨tail, same⟩ := starts
      rcases mem_pathShape.mp fits with file | ⟨d', inside', more, fits', rfl⟩
      · rw [← same, directory_of_file file] at starts'
        cases starts'
      · have read := directory_of_shape inside' fits' tail
        rw [← List.append_assoc, same, starts'] at read
        rw [← read, List.append_assoc] at same
        have starts' : more <+: rest := ⟨tail, List.append_cancel_left same⟩
        exact ⟨more, fits', by rw [read], munches.longest more fits' starts'⟩
    rw [path_of_directory starts', left]
    generalize path rest = file at munches within
    cases file with
    | nil =>
      refine ⟨fun filled => absurd rfl filled, List.nil_prefix, ?_⟩
      intro other fits starts
      obtain ⟨more, fits', -, empty⟩ := within other fits starts
      rw [List.prefix_nil.mp empty] at fits'
      exact absurd fits' nil_not_mem_pathShape
    | cons e file =>
      refine ⟨fun _ => ?_, ?_, ?_⟩
      · have fits := munches.fits (List.cons_ne_nil e file)
        exact mem_pathShape.mpr (.inr ⟨_, inside, _, fits, rfl⟩)
      · exact (List.prefix_append_right_inj _).mpr munches.starts
      · intro other fits starts
        obtain ⟨more, -, rfl, before⟩ := within other fits starts
        exact (List.prefix_append_right_inj _).mpr before

end Flipbook.Script.Pattern

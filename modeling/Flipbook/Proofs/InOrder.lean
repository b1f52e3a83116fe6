import Mathlib.Data.List.Induction

/-!
# Elements in order

What an element of a stream means may depend on the elements before it. `Latest p stream a` says
that some element does `p` with the result `a` and no later one does `p` at all. A stream is read
element by element, so each notion here comes with the rule for one more element.
-/

namespace Flipbook.InOrder

variable {κ α : Type} {stream : List κ} {c d : κ} {i : Nat}

theorem getElem?_concat_eq_some :
    (stream ++ [c])[i]? = some d ↔ stream[i]? = some d ∨ i = stream.length ∧ d = c := by
  rcases Nat.lt_trichotomy i stream.length with lt | rfl | gt
  · rw [List.getElem?_append_left lt]
    simp [Nat.ne_of_lt lt]
  · simp [eq_comm]
  · rw [List.getElem?_eq_none (by simp; omega), List.getElem?_eq_none (by omega)]
    simp [Nat.ne_of_gt gt]

theorem take_concat_of_getElem? (h : stream[i]? = some d) :
    (stream ++ [c]).take i = stream.take i :=
  List.take_append_of_le_length (Nat.le_of_lt (List.getElem?_eq_some_iff.mp h).1)

/-- Every element, with those before it, satisfies `ok`. -/
def Always (ok : List κ → κ → Prop) (stream : List κ) : Prop :=
  ∀ i c, stream[i]? = some c → ok (stream.take i) c

variable {ok : List κ → κ → Prop}

theorem always_nil : Always ok [] := by
  intro i c hc
  simp at hc

theorem always_concat : Always ok (stream ++ [c]) ↔ Always ok stream ∧ ok stream c := by
  constructor
  · intro h
    refine ⟨fun i d hd => ?_, ?_⟩
    · have here := h i d (getElem?_concat_eq_some.mpr (.inl hd))
      rwa [take_concat_of_getElem? hd] at here
    · have here := h stream.length c (by simp)
      rwa [List.take_left] at here
  · rintro ⟨old, new⟩ i d hd
    rcases getElem?_concat_eq_some.mp hd with hd | ⟨rfl, rfl⟩
    · rw [take_concat_of_getElem? hd]
      exact old i d hd
    · rwa [List.take_left]

theorem always_of_append {later : List κ} (always : Always ok (stream ++ later)) :
    Always ok stream := by
  intro i c hc
  have inside := (List.getElem?_eq_some_iff.mp hc).1
  have here := always i c (by rwa [List.getElem?_append_left inside])
  rwa [List.take_append_of_le_length (Nat.le_of_lt inside)] at here

/-- Some element does `p` with the result `a`, and every element before it satisfies `ok`. -/
def First (ok : List κ → κ → Prop) (p : List κ → κ → α → Prop) (stream : List κ) (a : α) : Prop :=
  ∃ i c, stream[i]? = some c ∧ p (stream.take i) c a ∧ Always ok (stream.take i)

/-- Some element does `p` with the result `a`, and no later element does `p`. -/
def Latest (p : List κ → κ → α → Prop) (stream : List κ) (a : α) : Prop :=
  ∃ i c, stream[i]? = some c ∧ p (stream.take i) c a ∧
    ∀ j d b, i < j → stream[j]? = some d → ¬ p (stream.take j) d b

variable {p : List κ → κ → α → Prop} {a : α}

theorem first_nil : ¬ First ok p [] a := by
  intro h
  obtain ⟨i, c, hc, _⟩ := h
  simp at hc

theorem first_concat :
    First ok p (stream ++ [c]) a ↔ First ok p stream a ∨ Always ok stream ∧ p stream c a := by
  constructor
  · intro h
    obtain ⟨i, d, hd, here, clean⟩ := h
    rcases getElem?_concat_eq_some.mp hd with hd | ⟨rfl, rfl⟩
    · rw [take_concat_of_getElem? hd] at here clean
      exact .inl ⟨i, d, hd, here, clean⟩
    · rw [List.take_left] at here clean
      exact .inr ⟨clean, here⟩
  · rintro (⟨i, d, hd, here, clean⟩ | ⟨clean, here⟩)
    · rw [← take_concat_of_getElem? (c := c) hd] at here clean
      exact ⟨i, d, getElem?_concat_eq_some.mpr (.inl hd), here, clean⟩
    · exact ⟨stream.length, c, by simp, by rwa [List.take_left], by rwa [List.take_left]⟩

/-- A stream all of whose elements are `ok` or give a result either is `ok` throughout or has a first
result. -/
theorem always_or_first (split : ∀ before c, ok before c ∨ ∃ a, p before c a) (stream : List κ) :
    Always ok stream ∨ ∃ a, First ok p stream a := by
  induction stream using List.reverseRecOn with
  | nil => exact .inl always_nil
  | append_singleton stream c ih =>
    rcases ih with clean | ⟨a, early⟩
    · rcases split stream c with fine | ⟨a, here⟩
      · exact .inl (always_concat.mpr ⟨clean, fine⟩)
      · exact .inr ⟨a, first_concat.mpr (.inr ⟨clean, here⟩)⟩
    · exact .inr ⟨a, first_concat.mpr (.inl early)⟩

theorem latest_nil : ¬ Latest p [] a := by
  intro h
  obtain ⟨i, c, hc, _⟩ := h
  simp at hc

theorem latest_concat :
    Latest p (stream ++ [c]) a ↔ p stream c a ∨ (∀ b, ¬ p stream c b) ∧ Latest p stream a := by
  constructor
  · intro h
    obtain ⟨i, d, hd, here, last⟩ := h
    rcases getElem?_concat_eq_some.mp hd with hd | ⟨rfl, rfl⟩
    · have inside := (List.getElem?_eq_some_iff.mp hd).1
      rw [take_concat_of_getElem? hd] at here
      refine .inr ⟨fun b hb => ?_, i, d, hd, here, fun j e b lt he => ?_⟩
      · exact last stream.length c b inside (by simp) (by rwa [List.take_left])
      · have later := last j e b lt (getElem?_concat_eq_some.mpr (.inl he))
        rwa [take_concat_of_getElem? he] at later
    · exact .inl (by rwa [List.take_left] at here)
  · rintro (here | ⟨noLater, i, d, hd, here, last⟩)
    · refine ⟨stream.length, c, by simp, by rwa [List.take_left], fun j e b lt he => ?_⟩
      rw [List.getElem?_eq_none (by simp; omega)] at he
      cases he
    · rw [← take_concat_of_getElem? (c := c) hd] at here
      refine ⟨i, d, getElem?_concat_eq_some.mpr (.inl hd), here, fun j e b lt he => ?_⟩
      rcases getElem?_concat_eq_some.mp he with he | ⟨rfl, rfl⟩
      · rw [take_concat_of_getElem? he]
        exact last j e b lt he
      · rw [List.take_left]
        exact noLater b

/-- There is a latest element that does `p` as soon as there is any. -/
theorem exists_latest_iff :
    (∃ a, Latest p stream a) ↔ ∃ i c a, stream[i]? = some c ∧ p (stream.take i) c a := by
  constructor
  · intro h
    obtain ⟨a, i, c, hc, here, _⟩ := h
    exact ⟨i, c, a, hc, here⟩
  · induction stream using List.reverseRecOn with
    | nil =>
      intro h
      obtain ⟨i, c, a, hc, _⟩ := h
      simp at hc
    | append_singleton stream c ih =>
      intro h
      obtain ⟨i, d, a, hd, here⟩ := h
      by_cases new : ∃ b, p stream c b
      · obtain ⟨b, hb⟩ := new
        exact ⟨b, latest_concat.mpr (.inl hb)⟩
      · rcases getElem?_concat_eq_some.mp hd with hd | ⟨rfl, rfl⟩
        · rw [take_concat_of_getElem? hd] at here
          obtain ⟨b, hb⟩ := ih ⟨i, d, a, hd, here⟩
          exact ⟨b, latest_concat.mpr (.inr ⟨fun b' hb' => new ⟨b', hb'⟩, hb⟩)⟩
        · rw [List.take_left] at here
          exact absurd ⟨a, here⟩ new

end Flipbook.InOrder

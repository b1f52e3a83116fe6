import Flipbook.Proofs.Run.Policy
import Flipbook.Proofs.Studio.Files
import Flipbook.Studio.Basic

/-!
# The files of a run

The last name of a path decides its place apart from other paths, and its format. So the frames of a
run stand at different places and are PNG files, and its animation stands at another place, whatever
their names and directories are.
-/

namespace Flipbook

namespace Studio

variable {text : String} {outers : List (List Char)} {last : List Char}

/-! ### Last names -/

theorem Path.pieces_of_no_slash (whole : '/' ∉ last) : pieces last = [last] := by
  induction last with
  | nil => rfl
  | cons c rest ih =>
    have other : c ≠ '/' := by
      rintro rfl
      exact whole List.mem_cons_self
    have alone : pieces rest = [rest] := ih fun later => whole (List.mem_cons_of_mem c later)
    rw [pieces]
    · rw [alone]
    · exact other

/-- Paths that begin alike have a last name that begins alike. -/
theorem Path.exists_stem (front : List Char) :
    ∃ outers stem, ∀ last, '/' ∉ last → pieces (front ++ last) = outers ++ [stem ++ last] := by
  induction front with
  | nil => exact ⟨[], [], fun last whole => pieces_of_no_slash whole⟩
  | cons c front ih =>
    obtain ⟨outers, stem, cut⟩ := ih
    by_cases slash : c = '/'
    · refine ⟨[] :: outers, stem, fun last whole => ?_⟩
      rw [slash, List.cons_append, pieces, cut last whole]
      rfl
    · cases outers with
      | nil =>
        refine ⟨[], c :: stem, fun last whole => ?_⟩
        rw [List.cons_append, pieces]
        · rw [cut last whole]
          rfl
        · exact slash
      | cons outer rest =>
        refine ⟨(c :: outer) :: rest, stem, fun last whole => ?_⟩
        rw [List.cons_append, pieces]
        · rw [cut last whole]
          rfl
        · exact slash

/-- A name that does not end in a point is kept as the last part of its path. -/
theorem Path.parts_getLast? (cut : pieces text.toList = outers ++ [last])
    (ends : ∃ c ∈ last.getLast?, c ≠ '.') : (Path.ofText text).parts.getLast? = some (.ofList last) := by
  obtain ⟨c, final, dotless⟩ := ends
  have special {other : String} (short : other.toList.getLast? ≠ some c) :
      String.ofList last ≠ other := by
    rintro rfl
    rw [String.toList_ofList] at short
    exact short final
  have full : String.ofList last ≠ "" := special nofun
  have outside : String.ofList last ≠ "." := special (by simp [dotless.symm])
  unfold Path.ofText
  dsimp only
  rw [cut, List.map_append, List.filter_append]
  simp [full, outside]

/-- A path leads to a place of its last name. -/
theorem placeOf_names (cut : Path.pieces text.toList = outers ++ [last])
    (ends : ∃ c ∈ last.getLast?, c ≠ '.') :
    (placeOf text).names.head? = some (.ofList last) := by
  obtain ⟨before, parts⟩ := List.getLast?_eq_some_iff.mp (Path.parts_getLast? cut ends)
  obtain ⟨c, final, dotless⟩ := ends
  have up : String.ofList last ≠ ".." := by
    intro same
    rw [← String.toList_ofList (l := last), same] at final
    exact dotless (Option.some.inj final).symm
  unfold placeOf Path.location
  rw [parts, List.foldl_append, List.foldl_cons, List.foldl_nil, Location.enter, if_neg up]
  rfl

/-- The extension of a path is what its last name has behind its last point. -/
theorem Path.extension?_of_cut {base extension : List Char}
    (cut : pieces text.toList = outers ++ [base ++ '.' :: extension]) (named : base ≠ [])
    (full : extension ≠ []) (pointless : '.' ∉ extension) :
    (Path.ofText text).extension? = some (.ofList extension) := by
  obtain ⟨c, final⟩ := Option.ne_none_iff_exists'.mp (mt List.getLast?_eq_none_iff.mp full)
  have inside : c ∈ extension := List.mem_of_getLast? final
  have dotless : c ≠ '.' := ne_of_mem_of_not_mem inside pointless
  have ends : (base ++ '.' :: extension).getLast? = some c := by
    rw [List.getLast?_append, List.getLast?_cons, final]
    rfl
  have other : String.ofList (base ++ '.' :: extension) ≠ ".." := by
    intro same
    rw [← String.toList_ofList (l := base ++ '.' :: extension), same] at ends
    exact dotless (Option.some.inj ends).symm
  have behind : ∀ d ∈ extension.reverse, decide (d ≠ '.') = true := by
    intro d member
    exact decide_eq_true (ne_of_mem_of_not_mem (List.mem_reverse.mp member) pointless)
  obtain ⟨d, rest, before⟩ := List.exists_cons_of_ne_nil (mt List.reverse_eq_nil_iff.mp named)
  unfold extension?
  rw [parts_getLast? cut ⟨c, ends, dotless⟩]
  dsimp only
  rw [String.toList_ofList, List.reverse_append, List.reverse_cons, List.append_assoc,
    List.dropWhile_append_of_pos behind, List.takeWhile_append_of_pos behind, before]
  show (if _ then none else some (String.ofList (extension.reverse ++ []).reverse)) = _
  rw [if_neg other, List.append_nil, List.reverse_reverse]

theorem Path.join_eq_append (directory file : String) :
    ∃ front, (Path.join directory file).toList = front ++ file.toList := by
  unfold Path.join
  split
  · exact ⟨[], rfl⟩
  · exact ⟨directory.toList, String.toList_append⟩
  · exact ⟨directory.toList, String.toList_append⟩
  · exact ⟨(directory ++ "/").toList, String.toList_append⟩

end Studio

/-! ### Frames and animations -/

namespace FramePolicy

open Studio

variable {policy : FramePolicy} {directory : String} {f g : Nat}

theorem slash_not_mem_frameNumber (f : Nat) : '/' ∉ (frameNumber f).toList := by
  unfold frameNumber
  rw [String.toList_ofList, List.mem_append]
  rintro (zero | digit)
  · exact absurd (List.eq_of_mem_replicate zero) (by decide)
  · exact absurd (Nat.isDigit_of_mem_toDigits (by decide) (by decide) digit) (by decide)

theorem exists_framePath_cut (policy : FramePolicy) (directory : String) :
    ∃ outers stem, ∀ f, Path.pieces (policy.framePath directory f).toList =
      outers ++ [stem ++ ((frameNumber f).toList ++ ".png".toList)] := by
  obtain ⟨outers, stem, cut⟩ :=
    Path.exists_stem (directory.toList ++ '/' :: policy.basename.toList)
  refine ⟨outers, stem, fun f => ?_⟩
  have text : policy.framePath directory f =
      directory ++ "/" ++ policy.basename ++ frameNumber f ++ ".png" := rfl
  rw [← cut]
  · simp [text]
  · rw [List.mem_append]
    exact not_or.mpr ⟨slash_not_mem_frameNumber f, by decide⟩

theorem exists_framePath_name (policy : FramePolicy) (directory : String) :
    ∃ stem : List Char, ∀ f, (placeOf (policy.framePath directory f)).names.head? =
      some (.ofList (stem ++ ((frameNumber f).toList ++ ".png".toList))) := by
  obtain ⟨outers, stem, cut⟩ := exists_framePath_cut policy directory
  exact ⟨stem, fun f => placeOf_names (cut f) ⟨'g', by simp, by decide⟩⟩

theorem framePath_place_injective
    (same : placeOf (policy.framePath directory f) = placeOf (policy.framePath directory g)) :
    f = g := by
  obtain ⟨stem, name⟩ := exists_framePath_name policy directory
  have alike := (name f).symm.trans (same ▸ name g)
  have digits := List.append_cancel_left (String.ofList_injective (Option.some.inj alike))
  exact frameNumber_injective (String.toList_inj.mp (List.append_cancel_right digits))

theorem framePath_place_ne_animation (output basename : String) :
    placeOf (policy.framePath directory f) ≠ placeOf (animationPath output basename) := by
  obtain ⟨stem, name⟩ := exists_framePath_name policy directory
  obtain ⟨front, text⟩ := Path.join_eq_append output (basename ++ ".gif")
  obtain ⟨outers, stem', cut⟩ := Path.exists_stem (front ++ basename.toList)
  have cut : Path.pieces (animationPath output basename).toList =
      outers ++ [stem' ++ ".gif".toList] := by
    rw [← cut _ (by decide), animationPath, text, String.toList_append, List.append_assoc]
  have animation : (placeOf (animationPath output basename)).names.head? =
      some (.ofList (stem' ++ ".gif".toList)) :=
    placeOf_names cut ⟨'f', by simp, by decide⟩
  -- One name ends in `png` and the other in `gif`.
  intro same
  have alike := String.ofList_injective (Option.some.inj ((same ▸ name f).symm.trans animation))
  have ends := congrArg List.getLast? alike
  simp at ends

theorem framePath_extension (policy : FramePolicy) (directory : String) (f : Nat) :
    (Path.ofText (policy.framePath directory f)).extension? = some "png" := by
  obtain ⟨outers, stem, cut⟩ := exists_framePath_cut policy directory
  have cut : Path.pieces (policy.framePath directory f).toList =
      outers ++ [(stem ++ (frameNumber f).toList) ++ '.' :: "png".toList] := by
    rw [cut f, List.append_assoc]
    rfl
  have digits : 3 ≤ (frameNumber f).toList.length := by
    simp [frameNumber]
    omega
  have named : stem ++ (frameNumber f).toList ≠ [] := by
    apply List.ne_nil_of_length_pos
    rw [List.length_append]
    omega
  exact Path.extension?_of_cut cut named (by decide) (by decide)

end FramePolicy

end Flipbook

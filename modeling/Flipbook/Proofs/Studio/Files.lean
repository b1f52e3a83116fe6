import Flipbook.Studio.FileTree
import Flipbook.Trace

/-!
# Reading and writing files

A path leads to one place, whatever stands there. What is written at the end of a new file is read
back, and a file at one place is not touched by what is put at another.
-/

namespace Flipbook.Studio

/-- Where a name leads from a directory. -/
def Location.enter (l : Location) (name : String) : Location :=
  if name = ".." then l.outside else l.child name

def Path.location (path : Path) : Location :=
  path.parts.foldl Location.enter ⟨path.absolute, 0, []⟩

/-- The place of the file that a text names. -/
def placeOf (text : String) : Location := (Path.ofText text).location

namespace FileTree

variable {t t' : FileTree} {l m start : Location} {e e' : Entry} {found : Option Entry}
variable {name text other : String} {names : List String}
variable {content content' bytes : List UInt8}

/-! ### Entries -/

theorem names_ne_nil (free : t.entry? l ≠ some .directory) : l.names ≠ [] := by
  intro outside
  apply free
  unfold entry?
  rw [if_pos outside]

theorem entry?_put_self (free : t.entry? l ≠ some .directory) : entry? (t.put l e) l = some e := by
  unfold entry? put
  rw [if_neg (names_ne_nil free), List.lookup_cons_self]

theorem lookup_filter_ne (entries : List (Location × Entry)) (apart : m ≠ l) :
    (entries.filter fun entry => entry.1 ≠ l).lookup m = entries.lookup m := by
  induction entries with
  | nil => rfl
  | cons first rest ih =>
    obtain ⟨place, entry⟩ := first
    by_cases here : place = l
    · have passed : (m == place) = false := beq_eq_false_iff_ne.mpr (here ▸ apart)
      rw [List.filter_cons_of_neg (by simpa using here), List.lookup_cons, passed]
      exact ih
    · rw [List.filter_cons_of_pos (by simpa using here), List.lookup_cons, List.lookup_cons, ih]

theorem entry?_put_other (apart : m ≠ l) : entry? (t.put l e) m = t.entry? m := by
  have passed : (m == l) = false := beq_eq_false_iff_ne.mpr apart
  unfold entry? put
  rw [List.lookup_cons, passed]
  split
  · rfl
  · exact lookup_filter_ne t.entries apart

theorem put_put : (t.put l e).put l e' = t.put l e' := by
  simp [put, List.filter_filter]

/-! ### Following names -/

theorem look_location (looked : t.look start name = .ok (m, found)) : m = start.enter name := by
  unfold look at looked
  unfold Location.enter
  split at looked
  · next outer =>
    rw [if_pos outer]
    exact (Prod.mk.inj (Except.ok.inj looked)).1.symm
  · next inner =>
    rw [if_neg inner]
    split at looked
    · cases looked
    · exact (Prod.mk.inj (Except.ok.inj looked)).1.symm

/-- A name that does not lead to a directory leads to what stands at its place. -/
theorem look_entry (looked : t.look start name = .ok (m, found)) (file : found ≠ some .directory) :
    found = t.entry? m := by
  unfold look at looked
  split at looked
  · cases looked
    exact absurd rfl file
  · split at looked
    · cases looked
    · cases looked
      rfl

theorem look_put_directory (looked : t.look start name = .ok (m, some .directory))
    (free : t.entry? l ≠ some .directory) :
    (t.put l e).look start name = .ok (m, some .directory) := by
  unfold look at looked ⊢
  split at looked
  · next outer =>
    rw [if_pos outer]
    exact looked
  · next inner =>
    rw [if_neg inner]
    split at looked
    · cases looked
    · next short =>
      rw [if_neg short]
      obtain ⟨rfl, stands⟩ := Prod.mk.inj (Except.ok.inj looked)
      -- A directory on the way is not the place at which something is put.
      have apart : start.child name ≠ l := by
        intro same
        rw [same] at stands
        exact free stands
      rw [entry?_put_other apart, stands]

theorem look_put (looked : t.look start name = .ok (m, found)) (file : found ≠ some .directory) :
    (t.put l e).look start name = .ok (m, entry? (t.put l e) m) := by
  unfold look at looked ⊢
  split at looked
  · cases looked
    exact absurd rfl file
  · next inner =>
    rw [if_neg inner]
    split at looked
    · cases looked
    · next short =>
      rw [if_neg short]
      cases looked
      rfl

theorem follow_cons_ok {next : String} {rest : List String}
    (followed : t.follow start (name :: next :: rest) = .ok (m, found)) :
    ∃ inside, t.look start name = .ok (inside, some .directory) ∧
      t.follow inside (next :: rest) = .ok (m, found) := by
  rw [follow] at followed
  · obtain ⟨⟨inside, entry⟩, looked, later⟩ := exists_of_bind_ok followed
    rcases entry with _ | ⟨⟨⟩ | content⟩
    · cases later
    · exact ⟨inside, looked, later⟩
    · cases later
  · exact List.cons_ne_nil next rest

theorem follow_cons {inside : Location} {next : String} {rest : List String}
    (looked : t.look start name = .ok (inside, some .directory)) :
    t.follow start (name :: next :: rest) = t.follow inside (next :: rest) := by
  rw [follow]
  · rw [looked]
    rfl
  · exact List.cons_ne_nil next rest

theorem follow_location (followed : t.follow start names = .ok (m, found)) :
    m = names.foldl Location.enter start := by
  induction names generalizing start with
  | nil =>
    cases followed
    rfl
  | cons name rest ih =>
    cases rest with
    | nil => exact look_location followed
    | cons next rest =>
      obtain ⟨inside, looked, later⟩ := follow_cons_ok followed
      rw [List.foldl_cons, ← look_location looked]
      exact ih later

theorem follow_entry (followed : t.follow start names = .ok (m, found))
    (file : found ≠ some .directory) : found = t.entry? m := by
  induction names generalizing start with
  | nil =>
    cases followed
    exact absurd rfl file
  | cons name rest ih =>
    cases rest with
    | nil => exact look_entry followed file
    | cons next rest =>
      obtain ⟨inside, looked, later⟩ := follow_cons_ok followed
      exact ih later

/-- What is put where no directory stands is not on the way to another file. -/
theorem follow_put (followed : t.follow start names = .ok (m, found))
    (file : found ≠ some .directory) (free : t.entry? l ≠ some .directory) :
    (t.put l e).follow start names = .ok (m, entry? (t.put l e) m) := by
  induction names generalizing start with
  | nil =>
    cases followed
    exact absurd rfl file
  | cons name rest ih =>
    cases rest with
    | nil => exact look_put followed file
    | cons next rest =>
      obtain ⟨inside, looked, later⟩ := follow_cons_ok followed
      rw [follow_cons (look_put_directory looked free)]
      exact ih later

/-! ### Files -/

/-- A text by which a file can be read or written, and what stands at its place. -/
structure Finds (t : FileTree) (text : String) (found : Option Entry) : Prop where
  readable : readPath text = .ok (.ofText text)
  resolved : t.resolve (.ofText text) = .ok (placeOf text, found)
  file : found ≠ some .directory
  plain : (Path.ofText text).isDirectory = false

theorem readPath_ok {path : Path} (readable : readPath text = .ok path) : path = .ofText text := by
  unfold readPath at readable
  repeat' split at readable
  all_goals cases readable
  rfl

theorem create_ok_iff :
    t.create text = .ok (t', l) ↔
      (∃ found, t.Finds text found) ∧ t' = t.put (placeOf text) (.file []) ∧ l = placeOf text := by
  constructor
  · intro created
    obtain ⟨path, readable, created⟩ := exists_of_bind_ok created
    obtain rfl := readPath_ok readable
    obtain ⟨⟨m, found⟩, resolved, created⟩ := exists_of_bind_ok created
    obtain rfl : m = placeOf text := follow_location resolved
    split at created
    · cases created
    · next file same =>
      cases same
      split at created
      · cases created
      · next plain =>
        cases created
        have plain : (Path.ofText text).isDirectory = false := Bool.eq_false_iff.mpr plain
        exact ⟨⟨found, readable, resolved, file, plain⟩, rfl, rfl⟩
  · rintro ⟨⟨found, readable, resolved, file, plain⟩, rfl, rfl⟩
    unfold create
    rw [readable]
    dsimp only [bind, Except.bind]
    rw [resolved]
    rcases found with _ | ⟨⟨⟩ | content⟩
    · simp [plain]
    · exact absurd rfl file
    · simp [plain]

theorem read_ok_iff : t.read text = .ok content ↔ t.Finds text (some (.file content)) := by
  constructor
  · intro read
    obtain ⟨path, readable, read⟩ := exists_of_bind_ok read
    obtain rfl := readPath_ok readable
    obtain ⟨⟨m, found⟩, resolved, read⟩ := exists_of_bind_ok read
    obtain rfl : m = placeOf text := follow_location resolved
    rcases found with _ | ⟨⟨⟩ | content⟩
    · cases read
    · cases read
    · dsimp only at read
      split at read
      · cases read
      · next plain =>
        cases read
        exact ⟨readable, resolved, by simp, by simpa using plain⟩
  · rintro ⟨readable, resolved, file, plain⟩
    unfold FileTree.read
    rw [readable]
    dsimp only [bind, Except.bind]
    rw [resolved]
    simp [plain]

namespace Finds

theorem entry (finds : t.Finds text found) : found = t.entry? (placeOf text) :=
  follow_entry finds.resolved finds.file

theorem free (finds : t.Finds text found) : t.entry? (placeOf text) ≠ some .directory := by
  rw [← finds.entry]
  exact finds.file

theorem put (finds : t.Finds text found) (free : t.entry? l ≠ some .directory)
    {found' : Option Entry} (here : FileTree.entry? (t.put l e) (placeOf text) = found')
    (file : found' ≠ some .directory) : (t.put l e).Finds text found' := by
  have resolved : (t.put l e).resolve (.ofText text) = .ok (placeOf text, found') := by
    rw [← here]
    exact follow_put finds.resolved finds.file free
  exact ⟨finds.readable, resolved, file, finds.plain⟩

theorem put_other (finds : t.Finds text found) (free : t.entry? l ≠ some .directory)
    (apart : placeOf text ≠ l) : (t.put l e).Finds text found := by
  apply finds.put free
  · rw [entry?_put_other apart, finds.entry]
  · exact finds.file

theorem put_file (finds : t.Finds text found) (content : List UInt8) :
    (t.put (placeOf text) (.file content)).Finds text (some (.file content)) := by
  apply finds.put finds.free
  · exact entry?_put_self finds.free
  · exact nofun

end Finds

theorem append_put (free : t.entry? l ≠ some .directory) :
    (t.put l (.file content)).append l bytes = t.put l (.file (content ++ bytes)) := by
  unfold append
  rw [entry?_put_self free]
  exact put_put

/-- A new file is read back with what was written at its end. -/
theorem read_created (created : t.create text = .ok (t', l)) (bytes : List UInt8) :
    (t'.append l bytes).read text = .ok bytes := by
  obtain ⟨⟨found, finds⟩, rfl, rfl⟩ := create_ok_iff.mp created
  rw [append_put finds.free]
  exact read_ok_iff.mpr (finds.put_file bytes)

theorem read_created_other (created : t.create other = .ok (t', l))
    (read : t.read text = .ok content) (apart : placeOf text ≠ placeOf other) :
    t'.read text = .ok content ∧ ∀ bytes, (t'.append l bytes).read text = .ok content := by
  obtain ⟨⟨found, finds⟩, rfl, rfl⟩ := create_ok_iff.mp created
  have stands := read_ok_iff.mp read
  refine ⟨read_ok_iff.mpr (stands.put_other finds.free apart), fun bytes => ?_⟩
  rw [append_put finds.free]
  exact read_ok_iff.mpr (stands.put_other finds.free apart)

/-! ### Directories -/

theorem read_makeDirectory {path : Path} (made : t.makeDirectory path = .ok t')
    (read : t.read text = .ok content) : t'.read text = .ok content := by
  obtain ⟨⟨l, found⟩, resolved, made⟩ := exists_of_bind_ok made
  rcases found with _ | entry
  · cases made
    have nothing : none = t.entry? l := follow_entry resolved nofun
    have free : t.entry? l ≠ some .directory := by
      rw [← nothing]
      exact nofun
    have finds := read_ok_iff.mp read
    -- The file stands there, and the directory is made where nothing stands.
    have apart : placeOf text ≠ l := by
      rintro rfl
      rw [← finds.entry] at nothing
      cases nothing
    exact read_ok_iff.mpr (finds.put_other free apart)
  · cases made

theorem read_makeParts {absolute : Bool} {parts : List String}
    (read : t.read text = .ok content) : (makeParts absolute parts t).1.read text = .ok content := by
  induction parts with
  | nil => exact read
  | cons name outer ih =>
    unfold makeParts
    dsimp only
    split
    · split
      · next outside =>
        rw [outside] at ih
        split
        · next made => exact read_makeDirectory made ih
        · exact ih
      · next outside =>
        rw [outside] at ih
        exact ih
    · split
      · next made => exact read_makeDirectory made read
      · exact read

theorem read_makeParents (read : t.read text = .ok content) :
    (t.makeParents other).1.read text = .ok content := by
  unfold makeParents
  dsimp only
  split
  · exact read
  · split
    · exact read
    · exact read_makeParts read

end FileTree

end Flipbook.Studio

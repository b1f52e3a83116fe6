import Flipbook.Proofs.InOrder
import Flipbook.Proofs.Timeline.Cells
import Flipbook.Proofs.Timeline.Running

/-!
# The last writer

What a timeline holds, read off its commands: which streams are accepted, which error refuses the
others, and for each cell the last command that writes it.
-/

namespace Flipbook.Timeline

open InOrder

/-! ### What commands say -/

/-- The values of a remembered list: the running values at the last `saveknobs` of its name. -/
def Saved (declared : KnobValues) (list : String) : List Command → KnobValues → Prop :=
  Latest fun before c values => c = .saveKnobs list ∧ values = running declared before

/-- Whether a run of `n` frames takes a command. -/
def Accepted (n : Nat) (before : List Command) : Command → Prop
  | .vary _ range _ _ _ => InRun n range
  | .tween range start stop _ =>
    InRun n range ∧ .saveKnobs start ∈ before ∧ .saveKnobs stop ∈ before
  | _ => True

/-- The error of a command that is not taken. A wrong range comes before an unknown list. -/
def offence (n : Nat) (before : List Command) : Command → Option Error
  | .vary knob range _ _ _ =>
    if InRun n range then none else some (.frameRange knob range.first range.last n)
  | .tween range start stop _ =>
    if ¬ InRun n range then some (.frameRange s!"{start} -> {stop}" range.first range.last n)
    else if .saveKnobs start ∉ before then some (.unknownKnobList start)
    else if .saveKnobs stop ∉ before then some (.unknownKnobList stop)
    else none
  | _ => none

/-- What a command writes into the cell of a knob in a frame. -/
inductive Writes (declared : KnobValues) (frame : Nat) (knob : String) (before : List Command) :
    Command → Float32 → Prop
  | vary {range start stop easing} (within : Within range frame) :
      Writes declared frame knob before (.vary knob range start stop easing)
        (Ramp.value ⟨range, start, stop, easing⟩ frame)
  | tween {range start stop easing first last} (within : Within range frame)
      (saved : Saved declared start before first) (saved' : Saved declared stop before last)
      (named : (first.get? knob).isSome ∨ (last.get? knob).isSome) :
      Writes declared frame knob before (.tween range start stop easing)
        (Ramp.value ⟨range, (first.get? knob).getD 0, (last.get? knob).getD 0, easing⟩ frame)

/-- The frames that a command writes. -/
def frameRange? : Command → Option FrameRange
  | .vary _ range _ _ _ => some range
  | .tween range _ _ _ => some range
  | _ => none

theorem Writes.within {declared : KnobValues} {frame : Nat} {knob : String}
    {before : List Command} {c : Command} {value : Float32}
    (h : Writes declared frame knob before c value) :
    ∃ range, frameRange? c = some range ∧ Within range frame := by
  cases h with
  | vary within => exact ⟨_, rfl, within⟩
  | tween within => exact ⟨_, rfl, within⟩

theorem offence_eq_none_iff {n : Nat} {before : List Command} {c : Command} :
    offence n before c = none ↔ Accepted n before c := by
  cases c with
  | vary knob range start stop easing => simp [offence, Accepted]
  | tween range start stop easing =>
    by_cases fits : InRun n range
    · by_cases known : Command.saveKnobs start ∈ before <;> simp [offence, Accepted, fits, known]
    · simp [offence, Accepted, fits]
  | _ => simp [offence, Accepted]

theorem offence_symbol {n : Nat} {before : List Command} {c : Command} {e : Error}
    (bad : offence n before c = some e) : e.symbol? = none := by
  cases c with
  | vary =>
    rw [offence] at bad
    split at bad
    · cases bad
    · cases bad
      rfl
  | tween =>
    rw [offence] at bad
    split at bad
    · cases bad
      rfl
    split at bad
    · cases bad
      rfl
    split at bad
    · cases bad
      rfl
    · cases bad
  | _ => cases bad

theorem saved_concat {declared values : KnobValues} {list : String} {commands : List Command}
    {c : Command} :
    Saved declared list (commands ++ [c]) values ↔
      c = .saveKnobs list ∧ values = running declared commands ∨
        c ≠ .saveKnobs list ∧ Saved declared list commands values := by
  simp only [Saved, latest_concat, not_and]
  refine or_congr_right (and_congr_left fun _ => ?_)
  exact ⟨fun h e => h _ e rfl, fun h _ e => absurd e h⟩

theorem exists_saved_iff (declared : KnobValues) {list : String} {commands : List Command} :
    (∃ values, Saved declared list commands values) ↔ .saveKnobs list ∈ commands := by
  simp only [Saved, exists_latest_iff, List.mem_iff_getElem?]
  exact ⟨fun ⟨i, c, _, hc, e, _⟩ => ⟨i, e ▸ hc⟩, fun ⟨i, hi⟩ => ⟨i, _, _, hi, rfl, rfl⟩⟩

/-! ### One command -/

/-- The state of a timeline is what its commands say. -/
structure Tells (n : Nat) (declared : KnobValues) (commands : List Command) (s : State) : Prop where
  length : s.frames.length = n
  running : s.running = running declared commands
  lists : ∀ list values, s.lists.get? list = some values ↔ Saved declared list commands values
  cells : ∀ frame < n, ∀ knob value,
    cell s.frames frame knob = some value ↔
      Latest (Writes declared frame knob) commands value

variable {n : Nat} {declared : KnobValues} {commands : List Command} {s : State} {c : Command}

theorem Tells.list_ok (h : Tells n declared commands s) {list : String} {values : KnobValues}
    (saved : Saved declared list commands values) : s.list list = .ok values := by
  rw [State.list, (h.lists list values).mpr saved]

theorem Tells.list_error (h : Tells n declared commands s) {list : String}
    (unknown : .saveKnobs list ∉ commands) : s.list list = .error (.unknownKnobList list) := by
  have absent : s.lists.get? list = none := by
    rw [Option.eq_none_iff_forall_ne_some]
    intro values hit
    exact unknown ((exists_saved_iff declared).mp ⟨values, (h.lists list values).mp hit⟩)
  rw [State.list, absent]

theorem Tells.checkRange (h : Tells n declared commands s) (name : String) (range : FrameRange) :
    s.checkRange name range =
      if InRun n range then .ok () else .error (.frameRange name range.first range.last n) := by
  simp only [State.checkRange, h.length, fits_iff]

theorem step_offence (h : Tells n declared commands s) {e : Error}
    (bad : offence n commands c = some e) : s.step c = .error e := by
  cases c with
  | vary knob range start stop easing =>
    simp only [offence] at bad
    split at bad
    · cases bad
    · next misfit =>
      cases bad
      simp only [State.step, h.checkRange, if_neg misfit]
      rfl
  | tween range start stop easing =>
    simp only [offence] at bad
    split at bad
    · next misfit =>
      cases bad
      simp only [State.step, h.checkRange, if_neg misfit]
      rfl
    next fits =>
    have fits := not_not.mp fits
    split at bad
    · next unknown =>
      cases bad
      simp only [State.step, h.checkRange, if_pos fits, h.list_error unknown]
      rfl
    next known =>
    obtain ⟨first, saved⟩ := (exists_saved_iff declared).mpr (not_not.mp known)
    split at bad
    · next unknown =>
      cases bad
      simp only [State.step, h.checkRange, if_pos fits, h.list_ok saved, h.list_error unknown]
      rfl
    · cases bad
  | _ => cases bad

theorem Tells.next (h : Tells n declared commands s) {t : State} (length : t.frames.length = n)
    (running : t.running = turn s.running c)
    (lists : ∀ list values, t.lists.get? list = some values ↔
      c = .saveKnobs list ∧ values = s.running ∨
        c ≠ .saveKnobs list ∧ s.lists.get? list = some values)
    (cells : ∀ frame < n, ∀ knob value, cell t.frames frame knob = some value ↔
      Writes declared frame knob commands c value ∨
        (∀ b, ¬ Writes declared frame knob commands c b) ∧
          cell s.frames frame knob = some value) :
    Tells n declared (commands ++ [c]) t where
  length := length
  running := by rw [running, h.running, running_concat]
  lists list values := by rw [lists, h.lists, h.running, saved_concat]
  cells frame inside knob value := by
    rw [cells frame inside, h.cells frame inside, latest_concat]

/-- A command that writes no frames. -/
theorem Tells.idle (h : Tells n declared commands s) {t : State} (still : frameRange? c = none)
    (frames : t.frames = s.frames) (running : t.running = turn s.running c)
    (lists : ∀ list values, t.lists.get? list = some values ↔
      c = .saveKnobs list ∧ values = s.running ∨
        c ≠ .saveKnobs list ∧ s.lists.get? list = some values) :
    Tells n declared (commands ++ [c]) t := by
  refine h.next (by rw [frames, h.length]) running lists fun frame _ knob value => ?_
  have noWrite (b : Float32) : ¬ Writes declared frame knob commands c b := by
    intro w
    obtain ⟨range, hit, _⟩ := w.within
    rw [still] at hit
    cases hit
  simp [noWrite, frames]

theorem writes_vary_iff {frame : Nat} {knob other : String} {range : FrameRange}
    {start stop value : Float32} {easing : Option Easing} :
    Writes declared frame other commands (.vary knob range start stop easing) value ↔
      (knob = other ∧ Within range frame) ∧
        value = Ramp.value ⟨range, start, stop, easing⟩ frame := by
  constructor
  · intro h
    cases h with
    | vary within => exact ⟨⟨rfl, within⟩, rfl⟩
  · intro h
    obtain ⟨⟨rfl, within⟩, rfl⟩ := h
    exact .vary within

theorem Tells.saved_unique (h : Tells n declared commands s) {list : String}
    {values values' : KnobValues} (saved : Saved declared list commands values)
    (saved' : Saved declared list commands values') : values = values' := by
  rw [← h.lists] at saved saved'
  exact Option.some.inj (saved.symm.trans saved')

theorem Tells.writes_tween_iff (h : Tells n declared commands s) {frame : Nat} {knob : String}
    {range : FrameRange} {start stop : String} {easing : Option Easing} {first last : KnobValues}
    {value : Float32} (saved : Saved declared start commands first)
    (saved' : Saved declared stop commands last) :
    Writes declared frame knob commands (.tween range start stop easing) value ↔
      (((first.get? knob).isSome ∨ (last.get? knob).isSome) ∧ Within range frame) ∧
        value = Ramp.value
          ⟨range, (first.get? knob).getD 0, (last.get? knob).getD 0, easing⟩ frame := by
  constructor
  · intro hw
    cases hw with
    | tween within one two named =>
      obtain rfl := h.saved_unique saved one
      obtain rfl := h.saved_unique saved' two
      exact ⟨⟨named, within⟩, rfl⟩
  · intro h
    obtain ⟨⟨named, within⟩, rfl⟩ := h
    exact .tween within saved saved' named

/-- A cell that a condition overwrites, as the last writer sees it. -/
theorem overwrite_iff {P : Prop} [Decidable P] {old : Option Float32} {new value : Float32}
    {writes : Float32 → Prop} (h : ∀ v, writes v ↔ P ∧ v = new) :
    (if P then some new else old) = some value ↔
      writes value ∨ (∀ b, ¬ writes b) ∧ old = some value := by
  simp only [h]
  split
  · next yes => simp [yes, eq_comm]
  · next no => simp [no]

theorem step_accepted (h : Tells n declared commands s) (taken : Accepted n commands c) :
    ∃ t, s.step c = .ok t ∧ Tells n declared (commands ++ [c]) t := by
  cases c with
  | vary knob range start stop easing =>
    refine ⟨{ s with frames := writeRamp knob ⟨range, start, stop, easing⟩ s.frames }, ?_, ?_⟩
    · simp only [State.step, h.checkRange, if_pos (show InRun n range from taken)]
      rfl
    · refine h.next (by simp [h.length]) rfl (by simp) fun frame inside other value => ?_
      rw [cell_writeRamp (by rwa [h.length])]
      exact overwrite_iff fun v => writes_vary_iff
  | tween range start stop easing =>
    obtain ⟨fits, known, known'⟩ := taken
    obtain ⟨first, saved⟩ := (exists_saved_iff declared).mpr known
    obtain ⟨last, saved'⟩ := (exists_saved_iff declared).mpr known'
    refine ⟨{ s with frames := writeRamps (tweenRamps range first last easing) s.frames }, ?_, ?_⟩
    · simp only [State.step, h.checkRange, if_pos fits, h.list_ok saved, h.list_ok saved']
      rfl
    · refine h.next (by simp [h.length]) rfl (by simp) fun frame inside knob value => ?_
      rw [tweenRamps, cell_writeRamps range (fun _ => rfl) _ (by rwa [h.length])]
      refine overwrite_iff fun v => ?_
      rw [h.writes_tween_iff saved saved', NameMap.mem_names, NameMap.get?_overlay]
      cases first.get? knob <;> cases last.get? knob <;> simp
  | saveKnobs list =>
    refine ⟨_, rfl, h.idle rfl rfl rfl fun other values => ?_⟩
    rw [NameMap.get?_insert]
    by_cases same : list = other
    · simp [same, eq_comm]
    · simp [same]
  | _ => exact ⟨_, rfl, h.idle rfl rfl rfl (by simp)⟩

/-! ### All commands -/

theorem tells_nil (n : Nat) (declared : KnobValues) : Tells n declared [] (.start n declared) where
  length := List.length_replicate
  running := rfl
  lists list values := by
    have unsaved : ¬ Saved declared list [] values := latest_nil
    simp [State.start, unsaved]
  cells frame inside knob value := by
    have unwritten : ¬ Latest (Writes declared frame knob) [] value := latest_nil
    simp [State.start, cell, inside, unwritten]

/-- The first command that a run of `n` frames does not take gives the error. -/
def FirstOffence (n : Nat) : List Command → Error → Prop :=
  First (Accepted n) fun before c e => offence n before c = some e

theorem foldlM_accepted (declared : KnobValues) (taken : Always (Accepted n) commands) :
    ∃ s, commands.foldlM State.step (.start n declared) = .ok s ∧ Tells n declared commands s := by
  induction commands using List.reverseRecOn with
  | nil => exact ⟨_, rfl, tells_nil n declared⟩
  | append_singleton commands c ih =>
    obtain ⟨old, new⟩ := always_concat.mp taken
    obtain ⟨s, run, tells⟩ := ih old
    obtain ⟨t, step, tells⟩ := step_accepted tells new
    exact ⟨t, (foldlM_concat run c).trans step, tells⟩

theorem foldlM_offence {e : Error} (bad : FirstOffence n commands e) :
    commands.foldlM State.step (.start n declared) = .error e := by
  induction commands using List.reverseRecOn with
  | nil => exact absurd bad first_nil
  | append_singleton commands c ih =>
    rcases first_concat.mp bad with early | ⟨clean, here⟩
    · rw [List.foldlM_append, ih early]
      rfl
    · obtain ⟨s, run, tells⟩ := foldlM_accepted declared clean
      exact (foldlM_concat run c).trans (step_offence tells here)

theorem accepted_or_offence (n : Nat) (commands : List Command) :
    Always (Accepted n) commands ∨ ∃ e, FirstOffence n commands e := by
  refine always_or_first (fun before c => ?_) commands
  cases bad : offence n before c with
  | none => exact .inl (offence_eq_none_iff.mp bad)
  | some e => exact .inr ⟨e, rfl⟩

theorem ofCommands_accepted (declared : KnobValues) (taken : Always (Accepted n) commands) :
    ∃ s, ofCommands commands n declared = .ok s.frames ∧ Tells n declared commands s := by
  obtain ⟨s, run, tells⟩ := foldlM_accepted declared taken
  exact ⟨s, by rw [ofCommands, run]; rfl, tells⟩

theorem ofCommands_offence {e : Error} (bad : FirstOffence n commands e) :
    ofCommands commands n declared = .error e := by
  rw [ofCommands, foldlM_offence bad]
  rfl

theorem ofCommands_ok_iff :
    (∃ frames, ofCommands commands n declared = .ok frames) ↔ Always (Accepted n) commands := by
  constructor
  · intro h
    obtain ⟨frames, resolved⟩ := h
    rcases accepted_or_offence n commands with taken | ⟨e, bad⟩
    · exact taken
    · rw [ofCommands_offence bad] at resolved
      cases resolved
  · intro taken
    obtain ⟨s, run, _⟩ := ofCommands_accepted declared taken
    exact ⟨_, run⟩

theorem ofCommands_error_iff {e : Error} :
    ofCommands commands n declared = .error e ↔ FirstOffence n commands e := by
  constructor
  · intro failed
    rcases accepted_or_offence n commands with taken | ⟨e', bad⟩
    · obtain ⟨s, run, _⟩ := ofCommands_accepted declared taken
      rw [run] at failed
      cases failed
    · rw [ofCommands_offence bad] at failed
      cases failed
      exact bad
  · exact ofCommands_offence

theorem ofCommands_symbol {e : Error} (failed : ofCommands commands n declared = .error e) :
    e.symbol? = none := by
  obtain ⟨i, c, _, bad, _⟩ := ofCommands_error_iff.mp failed
  exact offence_symbol bad

theorem ofCommands_length {frames : List KnobValues}
    (resolved : ofCommands commands n declared = .ok frames) : frames.length = n := by
  obtain ⟨s, run, tells⟩ := ofCommands_accepted declared (ofCommands_ok_iff.mp ⟨frames, resolved⟩)
  obtain rfl : s.frames = frames := Except.ok.inj (run.symm.trans resolved)
  exact tells.length

/-- Of an accepted stream, every range lies in the run. -/
theorem inRun_of_accepted (taken : Always (Accepted n) commands) {i : Nat} {range : FrameRange}
    (stands : commands[i]? = some c) (writes : frameRange? c = some range) : InRun n range := by
  have here := taken i c stands
  cases c with
  | vary =>
    cases writes
    exact here
  | tween =>
    cases writes
    exact here.1
  | _ => cases writes

theorem Saved.bound {list knob : String} {values : KnobValues}
    (saved : Saved declared list commands values) (bound : (values.get? knob).isSome) :
    (declared.get? knob).isSome ∨ ∃ value, .set knob value ∈ commands := by
  obtain ⟨i, c, _, ⟨_, rfl⟩, _⟩ := saved
  refine (isSome_running.mp bound).imp_right ?_
  intro h
  obtain ⟨value, here⟩ := h
  exact ⟨value, List.mem_of_mem_take here⟩

/-- A frame turns only knobs that a command names or that are declared. -/
theorem named_of_turned {frames : List KnobValues} {frame : Nat} {knob : String}
    {knobs : KnobValues} (resolved : ofCommands commands n declared = .ok frames)
    (frameKnobs : frames[frame]? = some knobs) (turned : (knobs.get? knob).isSome) :
    (∃ range start stop easing, .vary knob range start stop easing ∈ commands) ∨
      (declared.get? knob).isSome ∨ ∃ value, .set knob value ∈ commands := by
  obtain ⟨s, run, tells⟩ := ofCommands_accepted declared (ofCommands_ok_iff.mp ⟨frames, resolved⟩)
  obtain rfl : s.frames = frames := Except.ok.inj (run.symm.trans resolved)
  obtain ⟨value, holds⟩ := Option.isSome_iff_exists.mp turned
  have inside : frame < n := tells.length ▸ (List.getElem?_eq_some_iff.mp frameKnobs).1
  have written : cell s.frames frame knob = some value := by
    rw [cell, frameKnobs, Option.bind_some, holds]
  obtain ⟨i, c, stands, writes, _⟩ := (tells.cells frame inside knob value).mp written
  cases writes with
  | vary => exact .inl ⟨_, _, _, _, List.mem_of_getElem? stands⟩
  | tween _ saved saved' named =>
    have here : (declared.get? knob).isSome ∨ ∃ value, .set knob value ∈ commands.take i :=
      named.elim saved.bound saved'.bound
    refine .inr (here.imp_right ?_)
    intro h
    obtain ⟨value, here⟩ := h
    exact ⟨value, List.mem_of_mem_take here⟩

/-- A timeline takes exactly the streams whose ranges lie in the run and whose tweens name lists
remembered before them, and refuses any other with the error of its first offence. It then has `n`
frames; a frame turns a knob if some command writes that cell, as far as the last such command
says; and each write, done frame by frame, meets only frames that there are. -/
theorem ofCommands_last_writer (commands : List Command) (n : Nat) (declared : KnobValues) :
    ((∃ frames, ofCommands commands n declared = .ok frames) ↔ Always (Accepted n) commands) ∧
    (∀ e, ofCommands commands n declared = .error e ↔ FirstOffence n commands e) ∧
    ∀ frames, ofCommands commands n declared = .ok frames →
      frames.length = n ∧
      (∀ frame (_ : frame < frames.length) knob,
        ((∃ value, frames[frame].get? knob = some value) ↔
          ∃ i c value, commands[i]? = some c ∧
            Writes declared frame knob (commands.take i) c value) ∧
        ∀ value, frames[frame].get? knob = some value ↔
          Latest (Writes declared frame knob) commands value) ∧
      ∀ (i : Nat) c range, commands[i]? = some c → frameRange? c = some range →
        ∀ knob ramp maps, ramp.range = range → maps.length = n →
          writeEach? knob ramp maps (range.last - range.first + 1).toNat =
            some (writeRamp knob ramp maps) := by
  refine ⟨ofCommands_ok_iff, fun e => ofCommands_error_iff, fun frames resolved => ?_⟩
  have taken := ofCommands_ok_iff.mp ⟨frames, resolved⟩
  obtain ⟨s, run, tells⟩ := ofCommands_accepted declared taken
  obtain rfl : s.frames = frames := Except.ok.inj (run.symm.trans resolved)
  refine ⟨tells.length, fun frame inside knob => ?_, ?_⟩
  · have holds (value : Float32) : s.frames[frame].get? knob = some value ↔
        Latest (Writes declared frame knob) commands value := by
      rw [← tells.cells frame (tells.length ▸ inside) knob value, cell,
        List.getElem?_eq_getElem inside, Option.bind_some]
    refine ⟨?_, holds⟩
    simp only [holds]
    exact exists_latest_iff
  · rintro i c range hc writes knob ramp maps rfl length
    exact writeEach?_eq (inRun_of_accepted taken hc writes) length

/-- A `vary` over frames 0 to 2 and a later `tween` over frames 1 to 3: both write frame 2. -/
theorem last_writer_of_overlap :
    let commands : List Command :=
      [.vary "k" ⟨0, 2⟩ 0 4 none, .saveKnobs "a", .set "k" 8, .saveKnobs "b",
        .tween ⟨1, 3⟩ "a" "b" none]
    let declared : KnobValues := .ofList [("k", 0)]
    ∃ frames, ofCommands commands 4 declared = .ok frames ∧ frames.length = 4 ∧
      Latest (Writes declared 0 "k") commands 0 ∧ Latest (Writes declared 2 "k") commands 4 ∧
      Latest (Writes declared 3 "k") commands 8 := by
  intro commands declared
  obtain ⟨_, _, tells⟩ := ofCommands_last_writer commands 4 declared
  obtain ⟨length, cells, _⟩ := tells _ rfl
  refine ⟨_, rfl, length, ?_, ?_, ?_⟩
  · exact ((cells 0 (by decide +kernel) "k").2 0).mp (by decide +kernel)
  · exact ((cells 2 (by decide +kernel) "k").2 4).mp (by decide +kernel)
  · exact ((cells 3 (by decide +kernel) "k").2 8).mp (by decide +kernel)

end Flipbook.Timeline

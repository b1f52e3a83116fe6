import Flipbook.Proofs.Frame.Points

/-!
# Groups of commands

A frame keeps the transforms of open coordinate systems on a stack. The same commands read as a
tree: what stands between a push and its pop is a group, and a push without a pop opens a group to
the end. Evaluating the tree hands the current transform down and takes none back, so no stack is
needed. `replay_eq_evaluate` shows that a frame does what its tree does.
-/

namespace Flipbook.Frame

/-! ### Trees -/

/-- Commands in order, with the groups among them. -/
inductive Scope
  | done
  | act (c : Command) (next : Scope)
  | group (inside next : Scope)
  deriving DecidableEq

/-- The tree of the commands up to the first pop without a push, and then one for the commands
behind each such pop. -/
def levels : List Command → Scope × List Scope
  | [] => (.done, [])
  | .pop :: rest => (.done, (levels rest).1 :: (levels rest).2)
  | .push :: rest =>
    match levels rest with
    | (inside, []) => (.group inside .done, [])
    | (inside, next :: later) => (.group inside next, later)
  | c :: rest => (.act c (levels rest).1, (levels rest).2)

def tree (commands : List Command) : Scope :=
  (levels commands).1

/-- The tree written out, with a pop behind every group. -/
def Scope.commands : Scope → List Command
  | done => []
  | act c next => c :: next.commands
  | group inside next => .push :: inside.commands ++ .pop :: next.commands

/-- What a command of a group starts from. -/
structure Level where
  transform : Matrix Float32
  symbols : SymbolTable

/-- A command that stands in no group of its own. -/
def Level.act (setting : Setting) (level : Level) : Command → Replay Level
  | .display => do
    Replay.call .display
    return level
  | .save path => do
    Replay.call (.save path)
    return level
  | .transform motion knob => do
    let turned ← Trace.ofExcept (factor level.symbols knob)
    return { level with transform := level.transform.compose (motion.matrix turned) }
  | .line _ start _ stop _ => do
    Replay.call (.lines ((Mesh.edge start stop).map level.transform.apply) lineColor)
    return level
  | .solid shape material system => do
    let material ← Trace.ofExcept (SymbolTable.material level.symbols material)
    if let some name := system then Replay.log (.systemUnused name)
    Replay.call (.polygons (shape.points.map level.transform.apply) setting.lighting material)
    return level
  | .set knob value => return { level with symbols := setting.set level.symbols knob value }
  | .setKnobs value => return { level with symbols := setting.setAll level.symbols value }
  | .push | .pop | .basename _ | .frames _ | .vary .. | .saveKnobs _ | .tween .. => return level

/-- A group gets the transform of its surroundings and leaves it alone. The names that are set in it
stay set. -/
def Scope.evaluate (setting : Setting) : Scope → Level → Replay Level
  | done, level => return level
  | act c next, level => do next.evaluate setting (← level.act setting c)
  | group inside next, level => do
    let inner ← inside.evaluate setting level
    next.evaluate setting { level with symbols := inner.symbols }

variable {setting : Setting} {commands : List Command} {saved : List (Matrix Float32)}
variable {level : Level} {s t : State} {i : Nat} {symbols : SymbolTable} {knobs : KnobValues}

/-! ### Counting -/

/-- No beginning of the commands has more pops than pushes. -/
def Nested (commands : List Command) : Prop :=
  ∀ i, (commands.take i).count .pop ≤ (commands.take i).count .push

/-- Command `i` is the first pop that has no push. -/
structure FirstUnmatched (commands : List Command) (i : Nat) : Prop where
  stands : commands[i]? = some .pop
  nested : Nested (commands.take i)
  matched : (commands.take i).count .pop = (commands.take i).count .push

theorem levels_cons {c : Command} (opens : c ≠ .push) (closes : c ≠ .pop)
    (rest : List Command) : levels (c :: rest) = (.act c (levels rest).1, (levels rest).2) := by
  cases c with
  | push => exact absurd rfl opens
  | pop => exact absurd rfl closes
  | _ => rfl

theorem count_pop_push (rest : List Command) :
    (Command.push :: rest).count .pop = rest.count .pop :=
  List.count_cons_of_ne (by decide)

theorem count_push_pop (rest : List Command) :
    (Command.pop :: rest).count .push = rest.count .push :=
  List.count_cons_of_ne (by decide)

/-- There is one tree behind each pop without a push. -/
theorem length_levels_le_iff {k : Nat} :
    (levels commands).2.length ≤ k ↔
      ∀ i, (commands.take i).count .pop ≤ (commands.take i).count .push + k := by
  induction commands generalizing k with
  | nil => simp [levels]
  | cons c rest ih =>
    have split (ok : List Command → Prop) (here : ok []) :
        (∀ i, ok ((c :: rest).take i)) ↔ ∀ i, ok (c :: rest.take i) :=
      ⟨fun h i => h (i + 1), fun h i => Nat.casesOn i here h⟩
    rw [split (fun before => before.count .pop ≤ before.count .push + k) (Nat.zero_le _)]
    by_cases opens : c = .push
    · subst opens
      have shorter : (levels (.push :: rest)).2.length ≤ k ↔ (levels rest).2.length ≤ k + 1 := by
        rw [levels]
        obtain ⟨inside, later⟩ := levels rest
        cases later <;> simp
      rw [shorter, ih]
      simp only [count_pop_push, List.count_cons_self]
      exact forall_congr' fun i => by omega
    by_cases closes : c = .pop
    · subst closes
      simp only [levels, List.length_cons, count_push_pop, List.count_cons_self]
      cases k with
      | zero =>
        refine iff_of_false (by omega) fun h => ?_
        have first := h 0
        simp at first
      | succ k =>
        rw [Nat.add_le_add_iff_right, ih]
        exact forall_congr' fun i => by omega
    · simp only [levels_cons opens closes, List.count_cons_of_ne opens,
        List.count_cons_of_ne closes, ih]

theorem nested_iff : Nested commands ↔ (levels commands).2 = [] := by
  rw [← List.length_eq_zero_iff, ← Nat.le_zero, length_levels_le_iff]
  rfl

instance (commands : List Command) : Decidable (Nested commands) :=
  decidable_of_iff _ nested_iff.symm

/-- The commands, with the pops that are missing at their end, are their trees written out. -/
theorem exists_missing_pops (commands : List Command) :
    ∃ missing, commands.count .push + (levels commands).2.length = commands.count .pop + missing ∧
      commands ++ List.replicate missing .pop =
        (levels commands).1.commands ++ (levels commands).2.flatMap (.pop :: ·.commands) := by
  induction commands with
  | nil => exact ⟨0, rfl, rfl⟩
  | cons c rest ih =>
    obtain ⟨missing, counts, written⟩ := ih
    by_cases opens : c = .push
    · subst opens
      rw [levels, count_pop_push, List.count_cons_self]
      generalize levels rest = read at counts written ⊢
      obtain ⟨inside, _ | ⟨next, later⟩⟩ := read
      · refine ⟨missing + 1, by simp only [List.length_nil] at counts ⊢; omega, ?_⟩
        rw [List.replicate_succ', ← List.append_assoc, List.cons_append, written]
        simp [Scope.commands]
      · refine ⟨missing, by simp only [List.length_cons] at counts ⊢; omega, ?_⟩
        rw [List.cons_append, written]
        simp [Scope.commands]
    by_cases closes : c = .pop
    · subst closes
      rw [levels, count_push_pop, List.count_cons_self]
      refine ⟨missing, by simp; omega, ?_⟩
      rw [List.cons_append, written]
      simp [Scope.commands]
    · rw [levels_cons opens closes, List.count_cons_of_ne opens, List.count_cons_of_ne closes]
      refine ⟨missing, counts, ?_⟩
      rw [List.cons_append, written]
      rfl

/-- Behind the pops without a push the trees go on, in front of each of them the trees are those of
the commands so far. -/
theorem exists_unmatched {k : Nat} (more : k < (levels commands).2.length) :
    ∃ i, commands[i]? = some .pop ∧
      levels (commands.take i) = ((levels commands).1, (levels commands).2.take k) ∧
      (commands.take i).count .pop = (commands.take i).count .push + k := by
  induction commands generalizing k with
  | nil => simp [levels] at more
  | cons c rest ih =>
    by_cases opens : c = .push
    · subst opens
      rw [levels] at more ⊢
      have later := @ih (k + 1)
      generalize levels rest = read at more later
      obtain ⟨inside, _ | ⟨next, after⟩⟩ := read
      · simp at more
      · obtain ⟨i, stands, front, counts⟩ := later (by simpa using more)
        refine ⟨i + 1, stands, ?_, ?_⟩
        · rw [List.take_succ_cons, levels, front]
          rfl
        · rw [List.take_succ_cons, count_pop_push, List.count_cons_self]
          omega
    by_cases closes : c = .pop
    · subst closes
      cases k with
      | zero => exact ⟨0, rfl, rfl, rfl⟩
      | succ k =>
        obtain ⟨i, stands, front, counts⟩ := ih (Nat.lt_of_succ_lt_succ more)
        refine ⟨i + 1, stands, ?_, ?_⟩
        · rw [List.take_succ_cons, levels, front]
          rfl
        · rw [List.take_succ_cons, count_push_pop, List.count_cons_self]
          omega
    · rw [levels_cons opens closes] at more ⊢
      obtain ⟨i, stands, front, counts⟩ := ih more
      refine ⟨i + 1, stands, ?_, ?_⟩
      · rw [List.take_succ_cons, levels_cons opens closes, front]
      · rw [List.take_succ_cons, List.count_cons_of_ne opens, List.count_cons_of_ne closes]
        exact counts

theorem exists_firstUnmatched (lost : ¬ Nested commands) :
    ∃ i, FirstUnmatched commands i ∧ tree (commands.take i) = tree commands := by
  have more : 0 < (levels commands).2.length := List.length_pos_iff.mpr (mt nested_iff.mpr lost)
  obtain ⟨i, stands, front, counts⟩ := exists_unmatched more
  refine ⟨i, ⟨stands, nested_iff.mpr ?_, counts⟩, ?_⟩
  · rw [front]
    rfl
  · rw [tree, front]
    rfl

theorem execute_depth {c : Command} (done : (execute setting s c).outcome = .ok t) :
    t.stack.depth + [c].count .pop = s.stack.depth + [c].count .push := by
  cases c with
  | push =>
    cases done
    rfl
  | pop =>
    rw [execute, CoordinateStack.pop?] at done
    split at done
    · next popped =>
      split at popped
      · cases popped
      · next outer rest saved =>
        cases popped
        cases done
        rw [CoordinateStack.depth, CoordinateStack.depth, saved]
        rfl
    · cases done
  | transform motion knob =>
    obtain ⟨turned, _, done⟩ := Trace.exists_of_bind_ok done
    cases done
    rfl
  | solid shape material system =>
    obtain ⟨found, _, done⟩ := Trace.exists_of_bind_ok done
    cases system
    all_goals
      cases done
      rfl
  | _ =>
    cases done
    rfl

/-- Besides the outermost coordinate system as many are open as there were more pushes than pops. -/
theorem executeAll_depth (reached : (executeAll setting commands s).outcome = .ok t) :
    t.stack.depth + commands.count .pop = s.stack.depth + commands.count .push := by
  induction commands generalizing s with
  | nil =>
    cases reached
    rfl
  | cons c rest ih =>
    obtain ⟨r, first, later⟩ := Trace.exists_of_bind_ok reached
    have here := execute_depth first
    have later := ih later
    rw [← List.singleton_append, List.count_append, List.count_append]
    omega

theorem upTo_depth (reached : (upTo commands symbols knobs i).outcome = .ok s) :
    s.stack.depth + (commands.take i).count .pop = 1 + (commands.take i).count .push :=
  executeAll_depth reached

/-- A stack on which nothing is saved cannot be popped. -/
theorem pop?_of_depth_one (alone : s.stack.depth = 1) : s.stack.pop? = none := by
  have bare : s.stack.saved = [] := List.length_eq_zero_iff.mp (Nat.succ.inj alone)
  rw [CoordinateStack.pop?, bare]

/-! ### The stack of a group -/

/-- The state of a frame inside groups whose surroundings have these transforms. -/
def Level.within (saved : List (Matrix Float32)) (level : Level) : State :=
  ⟨⟨level.transform, saved⟩, level.symbols⟩

theorem execute_within {c : Command} (opens : c ≠ .push) (closes : c ≠ .pop) :
    execute setting (level.within saved) c = Level.within saved <$> level.act setting c := by
  cases c with
  | push => exact absurd rfl opens
  | pop => exact absurd rfl closes
  | transform motion knob =>
    simp only [execute, Level.act, Level.within, map_bind]
    rfl
  | solid shape material system =>
    simp only [execute, Level.act, Level.within, map_bind]
    cases system <;> rfl
  | _ => rfl

/-- The trees behind pops that close the surroundings, one after the other. -/
def unwind (setting : Setting) : List Scope → List (Matrix Float32) → Level → Replay SymbolTable
  | [], _, level => return level.symbols
  | _ :: _, [], _ => .fail .stackUnderflow
  | scope :: later, outer :: saved, level => do
    unwind setting later saved (← scope.evaluate setting ⟨outer, level.symbols⟩)

theorem executeAll_within (setting : Setting) (commands : List Command)
    (saved : List (Matrix Float32)) (level : Level) :
    State.symbols <$> executeAll setting commands (level.within saved) =
      (levels commands).1.evaluate setting level >>= unwind setting (levels commands).2 saved := by
  induction commands generalizing saved level with
  | nil => rfl
  | cons c rest ih =>
    by_cases opens : c = .push
    · subst opens
      have entered := ih (level.transform :: saved) level
      have pushed : executeAll setting (.push :: rest) (level.within saved) =
          executeAll setting rest (level.within (level.transform :: saved)) := by
        simp only [executeAll, execute, pure_bind]
        rfl
      rw [pushed, entered, levels]
      -- The first pop of the rest that has no push in it closes the group.
      obtain ⟨inside, later⟩ := levels rest
      cases later with
      | nil => simp [Scope.evaluate, unwind]
      | cons next later => simp [Scope.evaluate, unwind]
    by_cases closes : c = .pop
    · subst closes
      cases saved with
      | nil => rfl
      | cons outer saved => exact ih saved ⟨outer, level.symbols⟩
    · rw [levels_cons opens closes, executeAll, execute_within opens closes]
      simp only [bind_map_left, map_bind, Scope.evaluate, bind_assoc, ih]

/-- The level at which a frame starts. -/
def Level.start (symbols : SymbolTable) (knobs : KnobValues) : Level :=
  ⟨.identity, table symbols knobs⟩

theorem unwind_bottom (later : List Scope) :
    unwind setting later [] =
      fun level => if later = [] then return level.symbols else .fail .stackUnderflow := by
  cases later <;> rfl

/-- The names at each point of a frame are those that its tree leaves, and so are the calls. -/
theorem symbols_upTo (nested : Nested (commands.take i)) :
    State.symbols <$> upTo commands symbols knobs i =
      Level.symbols <$> (tree (commands.take i)).evaluate (.of symbols knobs)
        (.start symbols knobs) := by
  have simulated := executeAll_within (.of symbols knobs) (commands.take i) []
    (.start symbols knobs)
  simp only [nested_iff.mp nested, unwind] at simulated
  exact simulated.trans (bind_pure_comp _ _)

/-- A frame in terms of its names alone. What it warns of at its end can be counted in the commands. -/
theorem replay_eq_symbols (commands : List Command) (symbols : SymbolTable) (knobs : KnobValues) :
    replay commands symbols knobs = (do
      Replay.call .clear
      let _ ← State.symbols <$>
        executeAll (.of symbols knobs) commands ((Level.start symbols knobs).within [])
      if commands.count .pop < commands.count .push then
        Replay.log (.unmatchedPushes (commands.count .push - commands.count .pop))) := by
  rw [replay]
  refine congrArg (Replay.call .clear >>= ·) (funext fun _ => ?_)
  rw [bind_map_left]
  refine Trace.bind_congr_ok fun s reached => ?_
  have depth : s.stack.depth + commands.count .pop = 1 + commands.count .push :=
    executeAll_depth reached
  have open_iff : 1 < s.stack.depth ↔ commands.count .pop < commands.count .push := by omega
  have surplus : s.stack.depth - 1 = commands.count .push - commands.count .pop := by omega
  simp only [open_iff, surplus]

/-- A frame does what its tree does. If no beginning of the commands has more pops than pushes, the
tree is that of all commands, written out with the pops that are missing at the end. Otherwise it is
that of the commands before the first pop without a push; there the frame fails, with nothing but
the outermost coordinate system on its stack. At every point as many systems are open as there were
more pushes than pops, and the names stand for what they stand for in the tree. -/
theorem replay_eq_evaluate (commands : List Command) (symbols : SymbolTable) (knobs : KnobValues) :
    (Nested commands →
      (tree commands).commands =
        commands ++ List.replicate (commands.count .push - commands.count .pop) .pop ∧
      replay commands symbols knobs = do
        Replay.call .clear
        let _ ← (tree commands).evaluate (.of symbols knobs) (.start symbols knobs)
        if commands.count .pop < commands.count .push then
          Replay.log (.unmatchedPushes (commands.count .push - commands.count .pop))) ∧
    (¬ Nested commands → ∃ i, FirstUnmatched commands i ∧
      (replay commands symbols knobs = do
        Replay.call .clear
        let _ ← (tree (commands.take i)).evaluate (.of symbols knobs) (.start symbols knobs)
        .fail .stackUnderflow) ∧
      ∀ s, (upTo commands symbols knobs i).outcome = .ok s →
        s.stack.depth = 1 ∧ s.stack.pop? = none ∧
          execute (.of symbols knobs) s .pop = .fail .stackUnderflow) ∧
    ∀ i, (∀ s, (upTo commands symbols knobs i).outcome = .ok s →
        s.stack.depth + (commands.take i).count .pop = 1 + (commands.take i).count .push) ∧
      (Nested (commands.take i) →
        State.symbols <$> upTo commands symbols knobs i =
          Level.symbols <$> (tree (commands.take i)).evaluate (.of symbols knobs)
            (.start symbols knobs)) := by
  have simulated := executeAll_within (.of symbols knobs) commands [] (.start symbols knobs)
  simp only [unwind_bottom] at simulated
  refine ⟨fun nested => ⟨?_, ?_⟩, fun lost => ?_, fun i => ⟨fun s => upTo_depth, symbols_upTo⟩⟩
  · obtain ⟨missing, counts, written⟩ := exists_missing_pops commands
    rw [nested_iff.mp nested] at counts written
    simp only [List.length_nil, Nat.add_zero] at counts
    rw [counts, Nat.add_sub_cancel_left, written]
    exact (List.append_nil _).symm
  · rw [replay_eq_symbols, simulated]
    simp only [nested_iff.mp nested, if_true, bind_assoc, pure_bind]
    rfl
  · obtain ⟨i, unmatched, same⟩ := exists_firstUnmatched lost
    refine ⟨i, unmatched, ?_, fun s reached => ?_⟩
    · rw [replay_eq_symbols, simulated, same]
      simp only [if_neg (mt nested_iff.mpr lost), bind_assoc]
      rfl
    · have depth := upTo_depth reached
      have alone : s.stack.depth = 1 := by
        have matched := unmatched.matched
        omega
      have bare := pop?_of_depth_one alone
      refine ⟨alone, bare, ?_⟩
      rw [execute, bare]

/-- A group that moves and sets a knob: behind it the move is undone and the knob is not. -/
theorem group_undoes_moves_only :
    let edge : Command := .line none ⟨0, 0, 0⟩ none ⟨0, 0, 0⟩ none
    let commands : List Command :=
      [.push, .set "k" 2, .transform (.move ⟨1, 0, 0⟩) (some "k"), edge, .pop,
        .transform (.move ⟨0, 3, 0⟩) (some "k"), .push, edge]
    let drawn (p : Point Float32) : Event := .call (.lines [p, p] lineColor)
    Nested commands ∧
    tree commands = .group
      (.act (.set "k" 2) (.act (.transform (.move ⟨1, 0, 0⟩) (some "k")) (.act edge .done)))
      (.act (.transform (.move ⟨0, 3, 0⟩) (some "k")) (.group (.act edge .done) .done)) ∧
    (replay commands (.ofList [("k", .knob 0)]) .empty).events =
      [.call .clear, drawn ⟨2, 0, 0, 1⟩, drawn ⟨0, 6, 0, 1⟩, .log (.unmatchedPushes 1)] := by
  intro edge commands drawn
  have nested : Nested commands := by decide
  refine ⟨nested, by decide, ?_⟩
  obtain ⟨evaluated, _⟩ := replay_eq_evaluate commands (.ofList [("k", .knob 0)]) .empty
  rw [(evaluated nested).2]
  decide +kernel

end Flipbook.Frame

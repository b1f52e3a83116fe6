/-!
# Values by name

`NameMap β` binds names to values. The entries are kept in the order of their names, so two maps
that give every name the same value are equal (`NameMap.ext`), and listing a map needs no sorting.
-/

namespace Flipbook

/-- A finite map from names to values, in the order of the names. -/
structure NameMap (β : Type) where
  entries : List (String × β)
  /-- The names increase strictly. -/
  ordered : entries.Pairwise (fun a b => a.1 < b.1)
  deriving DecidableEq

namespace NameMap

variable {β γ : Type}

def empty : NameMap β := ⟨[], .nil⟩

instance : EmptyCollection (NameMap β) := ⟨empty⟩
instance : Inhabited (NameMap β) := ⟨empty⟩

/-! ### Looking up -/

/-- The value of the first entry of a name. -/
def lookup (name : String) : List (String × β) → Option β
  | [] => none
  | (key, value) :: rest => if key = name then some value else lookup name rest

def get? (m : NameMap β) (name : String) : Option β :=
  lookup name m.entries

def contains (m : NameMap β) (name : String) : Bool :=
  (m.get? name).isSome

def names (m : NameMap β) : List String :=
  m.entries.map Prod.fst

/-- The values, in the order of their names. -/
def values (m : NameMap β) : List β :=
  m.entries.map Prod.snd

/-! ### Binding -/

/-- Entries with one name bound anew, at its place in the order. -/
def place (name : String) (value : β) : List (String × β) → List (String × β)
  | [] => [(name, value)]
  | (key, old) :: rest =>
    if name < key then (name, value) :: (key, old) :: rest
    else if key = name then (name, value) :: rest
    else (key, old) :: place name value rest

theorem mem_place {name : String} {value : β} {l : List (String × β)} {p : String × β}
    (h : p ∈ place name value l) : p = (name, value) ∨ p ∈ l := by
  induction l with
  | nil => simpa [place] using h
  | cons e l ih =>
    obtain ⟨key, old⟩ := e
    unfold place at h
    split at h
    · simpa using h
    · split at h
      · rcases List.mem_cons.mp h with h | h
        · exact .inl h
        · exact .inr (List.mem_cons_of_mem _ h)
      · rcases List.mem_cons.mp h with h | h
        · exact .inr (by simp [h])
        · exact (ih h).imp_right (List.mem_cons_of_mem _)

theorem place_ordered (name : String) (value : β) {l : List (String × β)}
    (h : l.Pairwise (fun a b => a.1 < b.1)) :
    (place name value l).Pairwise (fun a b => a.1 < b.1) := by
  induction l with
  | nil => simp [place]
  | cons e l ih =>
    obtain ⟨key, old⟩ := e
    have hl := List.pairwise_cons.mp h
    unfold place
    split
    · rename_i lt
      refine List.pairwise_cons.mpr ⟨fun p hp => ?_, h⟩
      rcases List.mem_cons.mp hp with rfl | hp
      · exact lt
      · exact String.lt_trans lt (hl.1 p hp)
    · split
      · rename_i eq
        subst eq
        exact List.pairwise_cons.mpr hl
      · rename_i nlt neq
        refine List.pairwise_cons.mpr ⟨fun p hp => ?_, ih hl.2⟩
        rcases mem_place hp with rfl | hp
        · exact Std.lt_of_le_of_ne (String.not_lt.mp nlt) neq
        · exact hl.1 p hp

/-- The map with one name bound anew. -/
def insert (m : NameMap β) (name : String) (value : β) : NameMap β :=
  ⟨place name value m.entries, place_ordered name value m.ordered⟩

def map (f : β → γ) (m : NameMap β) : NameMap γ where
  entries := m.entries.map fun (name, value) => (name, f value)
  ordered := List.pairwise_map.mpr m.ordered

/-- The bindings that `f` keeps, with the values it gives. -/
def filterMap (f : β → Option γ) (m : NameMap β) : NameMap γ where
  entries := m.entries.filterMap fun (name, value) => (f value).map (name, ·)
  ordered := by
    refine List.Pairwise.filterMap _ (fun a b hab p hp q hq => ?_) m.ordered
    simp only [Option.map_eq_some_iff] at hp hq
    obtain ⟨_, _, rfl⟩ := hp
    obtain ⟨_, _, rfl⟩ := hq
    exact hab

/-- The map with all bindings of `top` laid over it. -/
def overlay (m top : NameMap β) : NameMap β :=
  top.entries.foldl (fun m (name, value) => m.insert name value) m

/-- The map of a list of bindings. Of two bindings of one name the later holds. -/
def ofList (entries : List (String × β)) : NameMap β :=
  entries.foldl (fun m (name, value) => m.insert name value) empty

/-! ### The view by name -/

@[simp] theorem get?_empty (name : String) : (empty : NameMap β).get? name = none := rfl

theorem lookup_eq_none {name : String} {l : List (String × β)} (h : ∀ p ∈ l, p.1 ≠ name) :
    lookup name l = none := by
  induction l with
  | nil => rfl
  | cons e l ih =>
    rw [lookup, if_neg (h e List.mem_cons_self), ih fun p hp => h p (List.mem_cons_of_mem _ hp)]

theorem lookup_eq_none_of_lt {name : String} {l : List (String × β)} (h : ∀ p ∈ l, name < p.1) :
    lookup name l = none :=
  lookup_eq_none fun p hp e => String.lt_irrefl name (by simpa [e] using h p hp)

theorem lookup_place (name : String) (value : β) (l : List (String × β)) (other : String)
    (h : l.Pairwise (fun a b => a.1 < b.1)) :
    lookup other (place name value l) = if name = other then some value else lookup other l := by
  induction l with
  | nil => simp [place, lookup]
  | cons e l ih =>
    obtain ⟨key, old⟩ := e
    unfold place
    split
    · simp [lookup]
    · split
      · rename_i eq
        subst eq
        by_cases ho : key = other <;> simp [lookup, ho]
      · rename_i neq
        by_cases ho : name = other
        · subst ho
          simp [lookup, neq, ih (List.pairwise_cons.mp h).2]
        · simp [lookup, ho, ih (List.pairwise_cons.mp h).2]

theorem get?_insert (m : NameMap β) (name : String) (value : β) (other : String) :
    (m.insert name value).get? other = if name = other then some value else m.get? other :=
  lookup_place name value m.entries other m.ordered

theorem get?_map (f : β → γ) (m : NameMap β) (name : String) :
    (m.map f).get? name = (m.get? name).map f := by
  simp only [get?, map]
  induction m.entries with
  | nil => rfl
  | cons e l ih => by_cases h : e.1 = name <;> simp_all [lookup]

theorem get?_foldl_insert {l : List (String × β)} (h : l.Pairwise (fun a b => a.1 < b.1))
    (m : NameMap β) (name : String) :
    (l.foldl (fun m (key, value) => m.insert key value) m).get? name =
      (lookup name l).or (m.get? name) := by
  induction l generalizing m with
  | nil => rfl
  | cons e l ih =>
    obtain ⟨key, value⟩ := e
    obtain ⟨first, rest⟩ := List.pairwise_cons.mp h
    rw [List.foldl_cons, ih rest, get?_insert, lookup]
    by_cases same : key = name
    · subst same
      simp [lookup_eq_none_of_lt first]
    · simp [same]

/-- What lies on top hides what lies below. -/
theorem get?_overlay (m top : NameMap β) (name : String) :
    (m.overlay top).get? name = (top.get? name).or (m.get? name) :=
  get?_foldl_insert top.ordered m name

theorem get?_filterMap (f : β → Option γ) (m : NameMap β) (name : String) :
    (m.filterMap f).get? name = (m.get? name).bind f := by
  obtain ⟨l, h⟩ := m
  simp only [get?, filterMap]
  induction l with
  | nil => rfl
  | cons e l ih =>
    obtain ⟨key, value⟩ := e
    obtain ⟨first, rest⟩ := List.pairwise_cons.mp h
    by_cases same : key = name
    · subst same
      have absent := lookup_eq_none_of_lt first
      cases kept : f value <;> simp [lookup, kept, ih rest, absent]
    · cases kept : f value <;> simp [lookup, kept, same, ih rest]

theorem values_filterMap (f : β → Option γ) (m : NameMap β) :
    (m.filterMap f).values = m.values.filterMap f := by
  simp only [values, filterMap, List.map_filterMap, List.filterMap_map]
  refine congrArg (List.filterMap · m.entries) (funext fun e => ?_)
  cases kept : f e.2 <;> simp [kept]

theorem mem_names {m : NameMap β} {name : String} : name ∈ m.names ↔ (m.get? name).isSome := by
  simp only [names, get?]
  induction m.entries with
  | nil => simp [lookup]
  | cons e l ih =>
    by_cases same : e.1 = name
    · simp [lookup, same]
    · simp [lookup, same, Ne.symm same, ih]

theorem mem_entries {m : NameMap β} {name : String} {value : β} :
    (name, value) ∈ m.entries ↔ m.get? name = some value := by
  obtain ⟨l, h⟩ := m
  simp only [get?]
  induction l with
  | nil => simp [lookup]
  | cons e l ih =>
    obtain ⟨first, rest⟩ := List.pairwise_cons.mp h
    by_cases same : e.1 = name
    · subst same
      have absent : (e.1, value) ∉ l := fun member =>
        String.lt_irrefl e.1 (first (e.1, value) member)
      simp [lookup, absent, Prod.ext_iff, eq_comm]
    · simp [lookup, same, Prod.ext_iff, Ne.symm same, ih rest]

theorem nodup_names (m : NameMap β) : m.names.Nodup :=
  List.pairwise_map.mpr (m.ordered.imp String.ne_of_lt)

theorem ofList_concat (entries : List (String × β)) (name : String) (value : β) :
    ofList (entries ++ [(name, value)]) = (ofList entries).insert name value :=
  List.foldl_append

/-- Maps that give every name the same value are equal. -/
theorem ext {m n : NameMap β} (h : ∀ name, m.get? name = n.get? name) : m = n := by
  obtain ⟨l, hl⟩ := m
  obtain ⟨k, hk⟩ := n
  simp only [get?] at h
  suffices l = k by subst this; rfl
  induction l generalizing k with
  | nil =>
    cases k with
    | nil => rfl
    | cons e k => simpa [lookup] using h e.1
  | cons d l ih =>
    cases k with
    | nil => simpa [lookup] using h d.1
    | cons e k =>
      have hl' := List.pairwise_cons.mp hl
      have hk' := List.pairwise_cons.mp hk
      have same : d.1 = e.1 := by
        by_cases hd : d.1 = e.1
        · exact hd
        · have h1 := h d.1
          have h2 := h e.1
          simp only [lookup, if_true, if_neg hd, if_neg (Ne.symm hd)] at h1 h2
          by_cases lt : d.1 < e.1
          · rw [lookup_eq_none_of_lt fun p hp => String.lt_trans lt (hk'.1 p hp)] at h1
            cases h1
          · have lt := Std.lt_of_le_of_ne (String.not_lt.mp lt) (Ne.symm hd)
            rw [lookup_eq_none_of_lt fun p hp => String.lt_trans lt (hl'.1 p hp)] at h2
            cases h2
      have head := h d.1
      simp only [lookup, if_true, if_pos same.symm] at head
      have value : d.2 = e.2 := by simpa using head
      have : d = e := Prod.ext same value
      subst this
      rw [ih hl'.2 k hk'.2 fun name => ?_]
      by_cases hn : d.1 = name
      · subst hn
        rw [lookup_eq_none_of_lt hl'.1, lookup_eq_none_of_lt hk'.1]
      · simpa [lookup, hn] using h name

/-! ### One map over another -/

theorem insert_overlay_of_bound {m top : NameMap β} {name : String}
    (bound : (top.get? name).isSome) (value : β) :
    (m.insert name value).overlay top = m.overlay top := by
  refine ext fun other => ?_
  rw [get?_overlay, get?_overlay, get?_insert]
  by_cases same : name = other
  · subst same
    obtain ⟨held, hit⟩ := Option.isSome_iff_exists.mp bound
    simp [hit]
  · simp [same]

theorem insert_overlay_of_free {m top : NameMap β} {name : String} (free : top.get? name = none)
    (value : β) : (m.insert name value).overlay top = (m.overlay top).insert name value := by
  refine ext fun other => ?_
  rw [get?_overlay, get?_insert, get?_insert, get?_overlay]
  by_cases same : name = other
  · subst same
    simp [free]
  · simp [same]

theorem overlay_map_overlay (m top : NameMap β) (f : β → β) :
    ((m.overlay top).map f).overlay top = (m.map f).overlay top := by
  refine ext fun name => ?_
  rw [get?_overlay, get?_overlay, get?_map, get?_map, get?_overlay]
  cases top.get? name <;> simp

end NameMap

end Flipbook

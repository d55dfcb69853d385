/-
JobPool.NameMap — values under names, kept in the order of the names.

A `NameMap` is a list of named values whose names rise strictly, so each name
occurs at most once and listing needs no sorting. `get?` is the view by which
the operations are understood: `insert` and `erase` change it at one name.
-/

namespace JobPool

/-- Values under strictly rising names. -/
structure NameMap (α : Type) where
  entries : List (String × α)
  rising : entries.Pairwise (fun a b => a.1 < b.1)

namespace NameMap

variable {α : Type}

/-- No names. -/
def empty : NameMap α := ⟨[], .nil⟩

instance : Inhabited (NameMap α) := ⟨empty⟩

/-- The value under a name. -/
def get? (m : NameMap α) (name : String) : Option α :=
  (m.entries.find? fun e => e.1 == name).map (·.2)

/-- True if there is a value under `name`. -/
def contains (m : NameMap α) (name : String) : Bool := (m.get? name).isSome

/-- The names, rising. -/
def names (m : NameMap α) : List String := m.entries.map (·.1)

/-- The values, in the order of their names. -/
def values (m : NameMap α) : List α := m.entries.map (·.2)

/-- The number of names. -/
def size (m : NameMap α) : Nat := m.entries.length

/-- The entries before `name`, `name` with its value, and the entries after. -/
def insertEntries (name : String) (a : α) : List (String × α) → List (String × α)
  | [] => [(name, a)]
  | e :: rest =>
    if name < e.1 then (name, a) :: e :: rest
    else if e.1 < name then e :: insertEntries name a rest
    else (name, a) :: rest

theorem mem_insertEntries {name : String} {a : α} {x : String × α} :
    ∀ {l : List (String × α)}, x ∈ insertEntries name a l → x = (name, a) ∨ x ∈ l
  | [], h => by simpa [insertEntries] using h
  | e :: rest, h => by
    unfold insertEntries at h
    split at h
    · simpa using h
    · split at h
      · rcases List.mem_cons.1 h with h | h
        · exact .inr (h ▸ List.mem_cons_self ..)
        · rcases mem_insertEntries h with h | h
          · exact .inl h
          · exact .inr (List.mem_cons_of_mem _ h)
      · rcases List.mem_cons.1 h with h | h
        · exact .inl h
        · exact .inr (List.mem_cons_of_mem _ h)

theorem rising_insertEntries {name : String} {a : α} :
    ∀ {l : List (String × α)}, l.Pairwise (fun a b => a.1 < b.1) →
      (insertEntries name a l).Pairwise (fun a b => a.1 < b.1)
  | [], _ => by simp [insertEntries]
  | e :: rest, h => by
    obtain ⟨he, hrest⟩ := List.pairwise_cons.1 h
    unfold insertEntries
    split
    · rename_i hlt
      refine List.pairwise_cons.2 ⟨fun x hx => ?_, h⟩
      rcases List.mem_cons.1 hx with rfl | hx
      · exact hlt
      · exact String.lt_trans hlt (he x hx)
    · split
      · rename_i hlt
        refine List.pairwise_cons.2 ⟨fun x hx => ?_, rising_insertEntries hrest⟩
        rcases mem_insertEntries hx with rfl | hx
        · exact hlt
        · exact he x hx
      · rename_i h1 h2
        have heq : e.1 = name := String.le_antisymm (String.not_lt.1 h1) (String.not_lt.1 h2)
        exact List.pairwise_cons.2 ⟨fun x hx => heq ▸ he x hx, hrest⟩

/-- Puts a value under a name; one that was there is replaced. -/
def insert (m : NameMap α) (name : String) (a : α) : NameMap α :=
  ⟨insertEntries name a m.entries, rising_insertEntries m.rising⟩

/-- Takes a name out. -/
def erase (m : NameMap α) (name : String) : NameMap α :=
  ⟨m.entries.filter (fun e => e.1 != name), m.rising.filter _⟩

/-- Changes the value under a name, if there is one. -/
def modify (m : NameMap α) (name : String) (f : α → α) : NameMap α where
  entries := m.entries.map fun e => if e.1 = name then (e.1, f e.2) else e
  rising := by
    refine List.pairwise_map.2 (m.rising.imp ?_)
    intro a b h
    split <;> split <;> exact h

/-- Changes every value. -/
def map {β : Type} (m : NameMap α) (f : α → β) : NameMap β :=
  ⟨m.entries.map fun e => (e.1, f e.2), List.pairwise_map.2 m.rising⟩

/-- The first name, in order, whose value satisfies `p`. -/
def findName? (m : NameMap α) (p : α → Bool) : Option String :=
  (m.entries.find? fun e => p e.2).map (·.1)

/-! ## What the operations do to the view -/

theorem find?_insertEntries (name : String) (a : α) (k : String) (l : List (String × α)) :
    (insertEntries name a l).find? (fun e => e.1 == k) =
      if k = name then some (name, a) else l.find? (fun e => e.1 == k) := by
  induction l with
  | nil =>
    by_cases h : k = name
    · simp [insertEntries, h]
    · simp [insertEntries, h, Ne.symm h]
  | cons e rest ih =>
    unfold insertEntries
    split
    · by_cases h : k = name
      · simp [h]
      · simp [h, Ne.symm h]
    · split
      · rename_i hlt
        by_cases he : e.1 = k
        · have hk : k ≠ name := fun hk => String.lt_irrefl name (by rw [he, hk] at hlt; exact hlt)
          simp [he, hk]
        · simp [he, ih]
      · rename_i h1 h2
        have heq : e.1 = name := String.le_antisymm (String.not_lt.1 h1) (String.not_lt.1 h2)
        by_cases h : k = name
        · simp [h]
        · simp [heq, h, Ne.symm h]

theorem get?_insert (m : NameMap α) (name : String) (a : α) (k : String) :
    (m.insert name a).get? k = if k = name then some a else m.get? k := by
  unfold get? insert
  rw [find?_insertEntries]
  split <;> rfl

theorem get?_erase (m : NameMap α) (name k : String) :
    (m.erase name).get? k = if k = name then none else m.get? k := by
  unfold get? erase
  rw [List.find?_filter]
  by_cases h : k = name
  · have hno : (fun e : String × α => decide (e.1 != name ∧ e.1 == k)) = fun _ => false := by
      funext e; simp [h]
    simp [h]
  · rw [if_neg h]
    congr 2
    funext e
    by_cases he : e.1 = k <;> simp [he, h]

theorem get?_modify (m : NameMap α) (name : String) (f : α → α) (k : String) :
    (m.modify name f).get? k = if k = name then (m.get? k).map f else m.get? k := by
  show ((m.entries.map fun e => if e.1 = name then (e.1, f e.2) else e).find? _).map _ = _
  unfold get?
  induction m.entries with
  | nil => simp
  | cons e rest ih =>
    rw [List.map_cons]
    by_cases he : e.1 = k
    · subst he
      split <;> simp
    · have skip : ∀ (x : String × α) (l : List (String × α)), x.1 = e.1 →
          (x :: l).find? (fun e => e.1 == k) = l.find? (fun e => e.1 == k) :=
        fun x l hx => List.find?_cons_of_neg (by simp [hx, he])
      rw [skip _ _ (by split <;> rfl), skip _ _ rfl]
      exact ih

theorem eq_of_entries : ∀ {m m' : NameMap α}, m.entries = m'.entries → m = m'
  | ⟨_, _⟩, ⟨_, _⟩, rfl => rfl

/-! ### Changing every value -/

section

variable {β : Type} (m : NameMap α) (f : α → β)

theorem names_map : (m.map f).names = m.names := by
  simp [names, map]

theorem values_map : (m.map f).values = m.values.map f := by
  simp [values, map]

theorem get?_map (name : String) : (m.map f).get? name = (m.get? name).map f := by
  simp only [get?, map, List.find?_map, Option.map_map]
  rfl

theorem map_erase (name : String) : (m.erase name).map f = (m.map f).erase name := by
  apply eq_of_entries
  simp only [map, erase, List.filter_map]
  rfl

theorem map_insert (name : String) (a : α) :
    (m.insert name a).map f = (m.map f).insert name (f a) := by
  apply eq_of_entries
  show (insertEntries name a m.entries).map _ = insertEntries name (f a) (m.entries.map _)
  induction m.entries with
  | nil => rfl
  | cons e rest ih =>
    simp only [insertEntries, List.map_cons]
    split
    · rfl
    · split
      · rw [List.map_cons, ih]
      · rfl

theorem map_modify (name : String) {g : α → α} {g' : β → β} (same : ∀ a, f (g a) = g' (f a)) :
    (m.modify name g).map f = (m.map f).modify name g' := by
  apply eq_of_entries
  simp only [map, modify, List.map_map]
  apply List.map_congr_left
  intro e _
  simp only [Function.comp_apply]
  split
  · rw [same]
  · rfl

end

/-! ### Entries -/

/-- The entries are what `get?` finds. -/
theorem get?_eq_some_iff (m : NameMap α) {name : String} {a : α} :
    m.get? name = some a ↔ (name, a) ∈ m.entries := by
  constructor
  · intro found
    obtain ⟨e, first, rfl⟩ := Option.map_eq_some_iff.1 found
    have own : e.1 = name := by simpa using List.find?_some first
    exact own ▸ List.mem_of_find?_eq_some first
  · obtain ⟨entries, rising⟩ := m
    unfold get?
    induction entries with
    | nil => simp
    | cons e rest ih =>
      obtain ⟨after, rising⟩ := List.pairwise_cons.1 rising
      intro mem
      rcases List.mem_cons.1 mem with rfl | mem
      · simp
      · have other : e.1 ≠ name := fun same => String.lt_irrefl _ (same ▸ after _ mem)
        rw [List.find?_cons_of_neg (by simpa using other)]
        exact ih rising mem

theorem mem_names_iff (m : NameMap α) (name : String) :
    name ∈ m.names ↔ m.contains name = true := by
  simp [names, contains, get?, List.find?_isSome]

theorem rising_names (m : NameMap α) : m.names.Pairwise (· < ·) :=
  List.pairwise_map.2 m.rising

end NameMap
end JobPool

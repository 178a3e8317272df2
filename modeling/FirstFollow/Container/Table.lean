/-!
# Tables

Finite maps that keep the order in which their keys first came. Writing to a key that is there
keeps its place; a new key goes to the end. The main statement is `Table.get?_insert`: a table
answers with what was last written.
-/

namespace FirstFollow

universe u v

/-! ## Entry lists -/

/-- Replaces the value of `key` where it stands, or adds the key at the end. -/
def insertEntry {κ : Type u} {α : Type v} [DecidableEq κ] (key : κ) (value : α) :
    List (κ × α) → List (κ × α)
  | [] => [(key, value)]
  | entry :: rest =>
    if entry.1 = key then (key, value) :: rest else entry :: insertEntry key value rest

/-- The value beside the first `key`. -/
def findEntry {κ : Type u} {α : Type v} [DecidableEq κ] (key : κ) : List (κ × α) → Option α
  | [] => none
  | entry :: rest => if entry.1 = key then some entry.2 else findEntry key rest

section

variable {κ : Type u} {α : Type v} [DecidableEq κ]

theorem keys_insertEntry {key : κ} {value : α} {entries : List (κ × α)} :
    (insertEntry key value entries).map Prod.fst =
      if key ∈ entries.map Prod.fst then entries.map Prod.fst
      else entries.map Prod.fst ++ [key] := by
  induction entries with
  | nil => simp [insertEntry]
  | cons entry rest ih =>
    unfold insertEntry
    by_cases h : entry.1 = key
    · simp [h]
    · have h' : ¬ key = entry.1 := fun e => h e.symm
      simp only [if_neg h, List.map_cons, ih, List.mem_cons, h', false_or]
      split <;> simp_all

theorem nodup_insertEntry {key : κ} {value : α} {entries : List (κ × α)}
    (h : (entries.map Prod.fst).Nodup) : ((insertEntry key value entries).map Prod.fst).Nodup := by
  rw [keys_insertEntry]
  split
  · exact h
  · rename_i hk
    refine List.nodup_append.2 ⟨h, List.pairwise_singleton _ _, ?_⟩
    intro a ha b hb hab
    rw [List.mem_singleton] at hb
    exact hk (hb ▸ hab ▸ ha)

theorem findEntry_insertEntry {key other : κ} {value : α} {entries : List (κ × α)} :
    findEntry other (insertEntry key value entries) =
      if key = other then some value else findEntry other entries := by
  induction entries with
  | nil => simp [insertEntry, findEntry]
  | cons entry rest ih =>
    unfold insertEntry
    by_cases h : entry.1 = key
    · by_cases h' : key = other <;> simp [findEntry, h, h']
    · rw [if_neg h]
      by_cases h' : entry.1 = other
      · have : ¬ key = other := fun e => h (h'.trans e.symm)
        simp [findEntry, h', this]
      · simp [findEntry, h', ih]

theorem findEntry_isSome_iff {key : κ} {entries : List (κ × α)} :
    (findEntry key entries).isSome ↔ key ∈ entries.map Prod.fst := by
  induction entries with
  | nil => simp [findEntry]
  | cons entry rest ih =>
    unfold findEntry
    by_cases h : entry.1 = key
    · simp [h]
    · have h' : ¬ key = entry.1 := fun e => h e.symm
      simp only [if_neg h, ih, List.map_cons, List.mem_cons, h', false_or]

theorem findEntry_eq_some_iff {key : κ} {value : α} {entries : List (κ × α)}
    (h : (entries.map Prod.fst).Nodup) :
    findEntry key entries = some value ↔ (key, value) ∈ entries := by
  induction entries with
  | nil => simp [findEntry]
  | cons entry rest ih =>
    obtain ⟨hentry, hrest⟩ := List.nodup_cons.1 h
    unfold findEntry
    split
    · rename_i hkey
      subst hkey
      have absent : (entry.1, value) ∉ rest := fun hmem =>
        hentry (List.mem_map.2 ⟨_, hmem, rfl⟩)
      simp [absent, Prod.ext_iff, eq_comm]
    · rename_i hkey
      have hne : (key, value) ≠ entry := fun e => hkey (by rw [← e])
      rw [ih hrest, List.mem_cons]
      simp [hne]

end

/-! ## The type of tables -/

/-- A finite map whose entries stand in the order in which their keys first came. -/
structure Table (κ : Type u) (α : Type v) where
  entries : List (κ × α)
  nodup_keys : (entries.map Prod.fst).Nodup

namespace Table

variable {κ : Type u} {α : Type v}

instance : EmptyCollection (Table κ α) := ⟨⟨[], .nil⟩⟩

instance : Inhabited (Table κ α) := ⟨∅⟩

instance [DecidableEq κ] [DecidableEq α] : DecidableEq (Table κ α) := fun s t =>
  decidable_of_iff (s.entries = t.entries) (by cases s; cases t; simp)

/-- The keys, in order. -/
def keys (table : Table κ α) : List κ := table.entries.map Prod.fst

/-- The values, in the order of their keys. -/
def values (table : Table κ α) : List α := table.entries.map Prod.snd

/-- The number of entries. -/
def size (table : Table κ α) : Nat := table.entries.length

instance : Membership κ (Table κ α) := ⟨fun table key => key ∈ table.keys⟩

theorem mem_iff_mem_keys {key : κ} {table : Table κ α} : key ∈ table ↔ key ∈ table.keys := Iff.rfl

@[simp] theorem keys_empty : (∅ : Table κ α).keys = [] := rfl

@[simp] theorem not_mem_empty (key : κ) : key ∉ (∅ : Table κ α) := List.not_mem_nil

variable [DecidableEq κ]

instance (key : κ) (table : Table κ α) : Decidable (key ∈ table) :=
  inferInstanceAs (Decidable (key ∈ table.keys))

/-- The value of a key. -/
def get? (table : Table κ α) (key : κ) : Option α := findEntry key table.entries

/-- Writes the value of a key. -/
def insert (table : Table κ α) (key : κ) (value : α) : Table κ α :=
  ⟨insertEntry key value table.entries, nodup_insertEntry table.nodup_keys⟩

/-- Writes the value that `change` makes of the present one. -/
def alter (table : Table κ α) (key : κ) (change : Option α → α) : Table κ α :=
  table.insert key (change (table.get? key))

/-- Writes entries one after another. -/
def insertMany (table : Table κ α) (entries : List (κ × α)) : Table κ α :=
  entries.foldl (fun t entry => t.insert entry.1 entry.2) table

/-- The table of a list of entries: a repeated key keeps its first place and its last value. -/
def ofList (entries : List (κ × α)) : Table κ α :=
  insertMany ∅ entries

@[simp] theorem get?_empty (key : κ) : (∅ : Table κ α).get? key = none := rfl

/-- A table answers with what was last written. -/
theorem get?_insert (table : Table κ α) (key other : κ) (value : α) :
    (table.insert key value).get? other = if key = other then some value else table.get? other :=
  findEntry_insertEntry

@[simp] theorem get?_insert_self (table : Table κ α) (key : κ) (value : α) :
    (table.insert key value).get? key = some value := by
  simp [get?_insert]

theorem keys_insert (table : Table κ α) (key : κ) (value : α) :
    (table.insert key value).keys =
      if key ∈ table then table.keys else table.keys ++ [key] :=
  keys_insertEntry

@[simp] theorem mem_insert {table : Table κ α} {key other : κ} {value : α} :
    other ∈ table.insert key value ↔ other = key ∨ other ∈ table := by
  rw [mem_iff_mem_keys, keys_insert]
  by_cases h : key ∈ table
  · rw [if_pos h, ← mem_iff_mem_keys]
    exact ⟨.inr, fun h' => h'.elim (fun e => e ▸ h) id⟩
  · rw [if_neg h, List.mem_append, List.mem_singleton, ← mem_iff_mem_keys]
    exact Or.comm

theorem mem_insertMany {table : Table κ α} {entries : List (κ × α)} {key : κ} :
    key ∈ table.insertMany entries ↔ key ∈ table ∨ key ∈ entries.map Prod.fst := by
  induction entries generalizing table with
  | nil => simp [insertMany]
  | cons entry rest ih =>
    have hstep : table.insertMany (entry :: rest) =
        (table.insert entry.1 entry.2).insertMany rest := rfl
    rw [hstep, ih, mem_insert, List.map_cons, List.mem_cons, or_assoc, or_left_comm]

/-- The keys of a table are those of the entries that it is made of. -/
theorem mem_ofList {entries : List (κ × α)} {key : κ} :
    key ∈ ofList entries ↔ key ∈ entries.map Prod.fst :=
  mem_insertMany.trans (or_iff_right (not_mem_empty key))

theorem size_insert_of_not_mem {table : Table κ α} {key : κ} (value : α) (h : key ∉ table) :
    (table.insert key value).size = table.size + 1 := by
  have hkeys := congrArg List.length (keys_insert table key value)
  rw [if_neg h] at hkeys
  simpa [keys, size] using hkeys

theorem isSome_get?_iff {table : Table κ α} {key : κ} : (table.get? key).isSome ↔ key ∈ table :=
  findEntry_isSome_iff

/-- A table answers with its entries. -/
theorem get?_eq_some_iff {table : Table κ α} {key : κ} {value : α} :
    table.get? key = some value ↔ (key, value) ∈ table.entries :=
  findEntry_eq_some_iff table.nodup_keys

theorem mem_values_iff {table : Table κ α} {value : α} :
    value ∈ table.values ↔ ∃ key, table.get? key = some value := by
  simp [values, get?_eq_some_iff]

theorem get?_eq_none_iff {table : Table κ α} {key : κ} : table.get? key = none ↔ key ∉ table := by
  rw [← isSome_get?_iff]
  cases table.get? key <;> simp

/-- Writing what a function gives for each key makes the table answer like the function there. -/
theorem get?_insertMany (answer : κ → Option α) {table : Table κ α} {entries : List (κ × α)}
    (h : ∀ entry ∈ entries, answer entry.1 = some entry.2) (key : κ) :
    (table.insertMany entries).get? key =
      if key ∈ entries.map Prod.fst then answer key else table.get? key := by
  induction entries generalizing table with
  | nil => simp [insertMany]
  | cons entry rest ih =>
    have hrest : ∀ e ∈ rest, answer e.1 = some e.2 := fun e he => h e (List.mem_cons_of_mem _ he)
    have hstep : table.insertMany (entry :: rest) =
        (table.insert entry.1 entry.2).insertMany rest := rfl
    rw [hstep, ih hrest, get?_insert, ← h entry List.mem_cons_self]
    simp only [List.map_cons, List.mem_cons]
    grind

end Table

end FirstFollow

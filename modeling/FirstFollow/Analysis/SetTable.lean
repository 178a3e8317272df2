import FirstFollow.Report.Error
import FirstFollow.Container.Table

/-!
# Tables of symbol sets

The FIRST and FOLLOW sets of nonterminals are held in tables. The passes that compute them only
ever merge symbols into entries, and note whether an entry grew.
-/

namespace FirstFollow

/-- Merges `other` into `items`, and tells whether that made it larger. -/
def absorb (items other : SymbolSet) : SymbolSet × Bool :=
  let merged := items ∪ other
  (merged, merged.size != items.size)

/-- A set of symbols for each of some nonterminals. -/
abbrev SetTable := Table NonterminalId SymbolSet

namespace SetTable

/-- The set of a nonterminal, empty if it has no entry. -/
def setOf (table : SetTable) (id : NonterminalId) : SymbolSet :=
  (table.get? id).getD ∅

/-- Merges symbols into the set of a nonterminal, which gets an entry if it has none, and tells
    whether the set grew. -/
def grow (table : SetTable) (id : NonterminalId) (more : SymbolSet) : SetTable × Bool :=
  let (merged, grew) := absorb (table.setOf id) more
  (table.insert id merged, grew)

/-- The set of a nonterminal that has an entry. -/
def lookup (table : SetTable) (id : NonterminalId) : Except Error SymbolSet :=
  match table.get? id with
  | some set => .ok set
  | none => .error (.missingIdentifier id)

/-- A table of empty sets. -/
def blank (ids : List NonterminalId) : SetTable :=
  .ofList (ids.map fun id => (id, ∅))

/-- The symbols of all sets, with repeats. -/
def symbols (table : SetTable) : List Symbol :=
  table.values.flatMap SortedSet.toList

theorem get?_of_mem {table : SetTable} {id : NonterminalId} (h : id ∈ table) :
    table.get? id = some (table.setOf id) := by
  obtain ⟨set, hset⟩ := Option.isSome_iff_exists.1 (Table.isSome_get?_iff.2 h)
  rw [setOf, hset]
  rfl

theorem setOf_insert (table : SetTable) (id other : NonterminalId) (set : SymbolSet) :
    (SetTable.setOf (table.insert id set) other) = if id = other then set else table.setOf other := by
  unfold setOf
  rw [Table.get?_insert]
  split <;> rfl

/-- Growing an entry merges into that entry and leaves the others. -/
theorem setOf_grow (table : SetTable) (id other : NonterminalId) (more : SymbolSet) :
    (table.grow id more).1.setOf other =
      if id = other then table.setOf id ∪ more else table.setOf other :=
  setOf_insert ..

theorem mem_grow {table : SetTable} {id other : NonterminalId} {more : SymbolSet} :
    other ∈ (table.grow id more).1 ↔ other = id ∨ other ∈ table :=
  Table.mem_insert

end SetTable

end FirstFollow

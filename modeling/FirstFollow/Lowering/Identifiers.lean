import FirstFollow.Store.Basic

/-!
# Handing out identifiers

The names of a grammar get the numbers from 0 up, in order. Numbers for helpers follow, from one
above the count of the names: the number in between is never used.
-/

namespace FirstFollow

/-- The numbers handed out so far, and the next one. -/
structure Identifiers where
  names : Table String NonterminalId
  issued : SortedSet NonterminalId
  counter : NonterminalId
  deriving DecidableEq, Inhabited

/-- Numbers names in order, after those in `table`; a name may come only once. -/
def numberNames (table : Table String NonterminalId) :
    List String → Except Error (Table String NonterminalId)
  | [] => .ok table
  | name :: rest =>
    if name ∈ table then .error (.duplicateDefinition name)
    else numberNames (table.insert name table.size) rest

namespace Identifiers

/-- What is left to hand out when the names of a table have their numbers. -/
def ofTable (table : Table String NonterminalId) : Identifiers :=
  ⟨table, .ofList table.values, table.size + 1⟩

/-- The numbers of some names. -/
def ofNames (names : List String) : Except Error Identifiers :=
  ofTable <$> numberNames ∅ names

/-- The number of a name. -/
def lookup (ids : Identifiers) (name : String) : Except Error NonterminalId :=
  match ids.names.get? name with
  | some id => .ok id
  | none => .error (.unknownIdentifier name)

/-- Hands out the next number. -/
def next (ids : Identifiers) : NonterminalId × Identifiers :=
  (ids.counter, { ids with issued := ids.issued.insert ids.counter, counter := ids.counter + 1 })

end Identifiers

end FirstFollow

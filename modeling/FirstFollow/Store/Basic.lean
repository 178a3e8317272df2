import FirstFollow.Container.Table
import FirstFollow.Report.Logged

/-!
# Grammar stores

A store holds the productions of each nonterminal, in the order in which they were added, with
the names of the named nonterminals and the set of those made up as helpers. It keeps the set of
the terminal texts that its productions hold. A store is filled in and then frozen; a frozen
store refuses every change.
-/

namespace FirstFollow

/-- The text of a terminal. -/
def Symbol.terminalText? : Symbol → Option String
  | .terminal text => some text
  | _ => none

/-- The terminal texts of a production. -/
def terminalTexts (production : Production) : List String :=
  production.filterMap Symbol.terminalText?

/-- The productions of a grammar, by nonterminal. -/
structure Store where
  rules : Table NonterminalId (List Production)
  /-- The named nonterminals. A nonterminal may have several names. -/
  names : Table String NonterminalId
  /-- The nonterminals that were made up as helpers. -/
  synthetic : SortedSet NonterminalId
  /-- The terminal texts that occur in productions. -/
  alphabet : SortedSet String
  /-- Whether the store refuses changes. -/
  frozen : Bool
  deriving DecidableEq, Inhabited

namespace Store

/-- A store without productions. -/
def ofNames (names : Table String NonterminalId) : Store :=
  ⟨∅, names, ∅, ∅, false⟩

/-! ## Reading -/

/-- The nonterminals that have productions, in the order in which they first got one. -/
def keys (store : Store) : List NonterminalId := store.rules.keys

/-- The number of nonterminals that have productions. -/
def size (store : Store) : Nat := store.rules.size

/-- The nonterminals that have names. -/
def named (store : Store) : SortedSet NonterminalId := .ofList store.names.values

/-- All nonterminals: those with a name, the helpers, and those with productions. -/
def identifiers (store : Store) : SortedSet NonterminalId :=
  store.named ∪ store.synthetic ∪ .ofList store.keys

/-- The nonterminal that has a name. -/
def identifier (store : Store) (name : String) : Except Error NonterminalId :=
  match store.names.get? name with
  | some id => .ok id
  | none => .error (.unknownIdentifier name)

/-- The name of a nonterminal; of several, the last. -/
def nameOf? (store : Store) (id : NonterminalId) : Option String :=
  (store.names.entries.reverse.find? fun entry => entry.2 = id).map Prod.fst

/-- The productions of a nonterminal that has some. -/
def productions (store : Store) (id : NonterminalId) : Except Error (List Production) :=
  match store.rules.get? id with
  | some productions => .ok productions
  | none => .error (.missingIdentifier id)

/-- Every production beside its nonterminal, in the order of the store. -/
def alternatives (store : Store) : List (NonterminalId × Production) :=
  store.rules.entries.flatMap fun entry => entry.2.map fun production => (entry.1, production)

theorem mem_alternatives {store : Store} {id : NonterminalId} {production : Production} :
    (id, production) ∈ store.alternatives ↔
      ∃ productions, store.rules.get? id = some productions ∧ production ∈ productions := by
  simp only [alternatives, List.mem_flatMap, List.mem_map, Table.get?_eq_some_iff]
  constructor
  · rintro ⟨⟨key, productions⟩, hentry, found, hmem, hfound⟩
    cases hfound
    exact ⟨productions, hentry, hmem⟩
  · rintro ⟨productions, hentry, hmem⟩
    exact ⟨(id, productions), hentry, production, hmem, rfl⟩

theorem mem_keys_of_mem_alternatives {store : Store} {id : NonterminalId}
    {production : Production} (h : (id, production) ∈ store.alternatives) : id ∈ store.keys := by
  obtain ⟨productions, hget, -⟩ := mem_alternatives.1 h
  exact List.mem_map.2 ⟨_, Table.get?_eq_some_iff.1 hget, rfl⟩

/-! ## Filling in -/

/-- Adds a production to those of a nonterminal. -/
def add (store : Store) (id : NonterminalId) (production : Production) : Except Error Store :=
  if store.frozen then .error (.defect .productionAfterFreeze)
  else .ok { store with
    rules := store.rules.alter id fun present => present.getD [] ++ [production]
    alphabet := store.alphabet.insertMany (terminalTexts production) }

/-- Counts a nonterminal among the helpers. -/
def markSynthetic (store : Store) (id : NonterminalId) : Except Error Store :=
  if store.frozen then .error (.defect .identifierAfterFreeze)
  else .ok { store with synthetic := store.synthetic.insert id }

end Store

end FirstFollow

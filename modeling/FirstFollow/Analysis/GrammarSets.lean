import FirstFollow.Analysis.Follow

/-!
# The sets of a grammar

What the analysis of a frozen store finds: its alphabet, its nonterminals, the FIRST set of each
symbol and the FOLLOW set of each nonterminal.
-/

namespace FirstFollow

/-- Where the grammar starts. -/
inductive Start where
  | unspecified
  | name (name : String)
  | id (id : NonterminalId)
  deriving DecidableEq, Repr

/-- The symbols of a grammar and their sets. -/
structure GrammarSets where
  alphabet : SortedSet String
  identifiers : SortedSet NonterminalId
  /-- FIRST of the empty symbol, of each terminal and of each nonterminal, in this order. -/
  firsts : Table Symbol SymbolSet
  follows : SetTable
  start : Option NonterminalId
  deriving DecidableEq

namespace GrammarSets

/-- The sets of the store without productions. -/
def blank : GrammarSets :=
  ⟨∅, ∅, .ofList [(.empty, {.empty})], ∅, none⟩

/-- FIRST of a symbol of the grammar. -/
def first (sets : GrammarSets) (symbol : Symbol) : Except Error SymbolSet :=
  match sets.firsts.get? symbol with
  | some set => .ok set
  | none => .error (.missingSymbol symbol)

/-- FOLLOW of a nonterminal of the grammar. -/
def follow (sets : GrammarSets) (id : NonterminalId) : Except Error SymbolSet :=
  sets.follows.lookup id

/-- Whether a nonterminal of the grammar derives the empty string. -/
def isNullable (sets : GrammarSets) (id : NonterminalId) : Except Error Bool := do
  return .empty ∈ (← sets.first (.nonterminal id))

/-- FIRST of a sequence of symbols. -/
def firstOf (sets : GrammarSets) (symbols : List Symbol) : Except Error SymbolSet :=
  sequenceFirst (fun id => sets.first (.nonterminal id)) symbols

end GrammarSets

namespace Store

/-- The nonterminal that a start names. A start given by number needs productions. -/
def startId (store : Store) : Start → Except Error (Option NonterminalId)
  | .unspecified => .ok none
  | .name name => some <$> store.identifier name
  | .id id =>
    if id ∈ store.rules then .ok (some id) else .error (.unknownIdentifier (toString id))

/-- The symbols that have FIRST sets, in order. -/
def analyzedSymbols (store : Store) : List Symbol :=
  .empty :: store.alphabet.toList.map .terminal ++ store.identifiers.toList.map .nonterminal

/-- FIRST of each symbol, in order. -/
def firstEntries (firsts : SetTable) : List Symbol → Except Error (List (Symbol × SymbolSet))
  | [] => .ok []
  | symbol :: rest => do
    let set ← firsts.first symbol
    let entries ← firstEntries firsts rest
    return (symbol, set) :: entries

/-- Computes all FIRST and FOLLOW sets of a frozen store. -/
def analyze (store : Store) (start : Start) : Logged GrammarSets := do
  if !store.frozen then
    Logged.ofExcept (.error (.defect .notFrozen))
  else
    let start ← store.startId start
    let firsts ← store.firsts
    let entries ← firstEntries firsts store.analyzedSymbols
    let follows ← store.follows firsts start
    return {
      alphabet := store.alphabet
      identifiers := store.identifiers
      firsts := .ofList entries
      follows := .ofList (store.identifiers.toList.map fun id => (id, follows.table.setOf id))
      start := start }

end Store

end FirstFollow

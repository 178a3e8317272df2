import FirstFollow.Analysis.Fixpoint
import FirstFollow.Analysis.SetTable
import FirstFollow.Store.Basic

/-!
# FIRST sets

FIRST of a nonterminal holds the terminals that can come first in what it derives, and the empty
symbol if it derives the empty string. The sets of a whole store are found by passes that merge
the FIRST set of every production, as far as it is known, into the set of its nonterminal, until
a pass adds nothing. Left recursion needs no special care.
-/

namespace FirstFollow

/-- FIRST of a sequence of symbols, with the sets of nonterminals looked up. A symbol
    contributes as long as all symbols before it can be empty. -/
def sequenceFirst (lookup : NonterminalId → Except Error SymbolSet) :
    List Symbol → Except Error SymbolSet
  | [] => .ok {.empty}
  | .empty :: rest => sequenceFirst lookup rest
  | .terminal text :: _ => .ok {.terminal text}
  | .nonterminal id :: rest => do
    let set ← lookup id
    if .empty ∈ set then
      let more ← sequenceFirst lookup rest
      return set.erase .empty ∪ more
    else
      return set
  | symbol :: _ => .error (.defect (.noFirstSet symbol))

namespace SetTable

/-- FIRST of a nonterminal in a table of FIRST sets. -/
def firstOf (firsts : SetTable) (id : NonterminalId) : Except Error SymbolSet :=
  match firsts.get? id with
  | some set => .ok set
  | none => .error (.defect (.noProductions id))

/-- FIRST of a symbol. -/
def first (firsts : SetTable) : Symbol → Except Error SymbolSet
  | .empty => .ok {.empty}
  | .terminal text => .ok {.terminal text}
  | .nonterminal id => firsts.firstOf id
  | symbol => .error (.defect (.noFirstSet symbol))

end SetTable

/-- One pass over productions: merges FIRST of each into the set of its nonterminal, and tells
    whether a set grew. -/
def firstPass : List (NonterminalId × Production) → SetTable → Except Error (SetTable × Bool)
  | [], firsts => .ok (firsts, false)
  | (id, production) :: rest, firsts => do
    let set ← sequenceFirst firsts.firstOf production
    let (grown, grew) := firsts.grow id set
    let (last, more) ← firstPass rest grown
    return (last, grew || more)

namespace Store

/-- More passes than FIRST can take: every pass but the last adds a symbol to a set, and a set
    holds terminals of the productions and the empty symbol. -/
def firstBound (store : Store) : Nat :=
  store.size * ((store.alternatives.flatMap fun entry => terminalTexts entry.2).length + 1) + 1

/-- The passes that compute the FIRST sets of a store. -/
def firstRun (store : Store) : PassRun Error SetTable :=
  runPasses (firstPass store.alternatives) store.firstBound (.blank store.keys)

/-- The FIRST sets of all nonterminals that have productions. -/
def firsts (store : Store) : Except Error SetTable :=
  store.firstRun.result

/-- FIRST of one symbol. The sets of the store are only computed for a nonterminal. -/
def first (store : Store) : Symbol → Except Error SymbolSet
  | .nonterminal id => do (← store.firsts).firstOf id
  | symbol => SetTable.first ∅ symbol

end Store

end FirstFollow

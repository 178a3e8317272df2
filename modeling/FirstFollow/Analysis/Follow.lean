import FirstFollow.Analysis.First
import FirstFollow.Report.Logged

/-!
# FOLLOW sets

FOLLOW of a nonterminal holds the terminals that can come right after it in a derivation. They
are found by passes over all occurrences of nonterminals in productions. An occurrence receives
FIRST of what stands after it; when all of that can be empty, it also receives what follows the
nonterminal whose production it is in. FOLLOW sets depend on each other in circles, so the passes
go on until one of them adds nothing.
-/

namespace FirstFollow

/-- An occurrence of the nonterminal `target` in a production of `owner`, with the symbols after
    it. -/
structure Occurrence where
  owner : NonterminalId
  target : NonterminalId
  rest : List Symbol
  production : Production
  deriving DecidableEq, Repr

/-- The occurrences of nonterminals in the tail `symbols` of a production. -/
def occurrencesIn (owner : NonterminalId) (production : Production) :
    List Symbol → List Occurrence
  | [] => []
  | .nonterminal target :: rest =>
    ⟨owner, target, rest, production⟩ :: occurrencesIn owner production rest
  | _ :: rest => occurrencesIn owner production rest

/-- All occurrences of nonterminals, in the order of the store. -/
def Store.occurrences (store : Store) : List Occurrence :=
  store.alternatives.flatMap fun entry => occurrencesIn entry.1 entry.2 entry.2

/-! ## Scanning what stands after an occurrence -/

/-- How a scan ended. -/
inductive ScanEnd where
  /-- At a symbol that cannot be empty. -/
  | stopped
  /-- At the end of the production: all symbols can be empty. -/
  | exhausted
  /-- At a symbol from which nothing follows. -/
  | failed (error : Error)

namespace Occurrence

/-- Scans symbols from the left up to the first that cannot be empty: the terminals found, and
    how the scan ended. -/
def scan (occurrence : Occurrence) (firsts : SetTable) : List Symbol → SymbolSet × ScanEnd
  | [] => (∅, .exhausted)
  | .terminal text :: _ => ({.terminal text}, .stopped)
  | .nonterminal id :: rest =>
    match firsts.firstOf id with
    | .error e => (∅, .failed e)
    | .ok set =>
      if .empty ∈ set then
        let (more, ending) := scan occurrence firsts rest
        (set.erase .empty ∪ more, ending)
      else (set, .stopped)
  | symbol :: _ =>
    (∅, .failed (.defect (.unexpectedSymbol symbol occurrence.target occurrence.production)))

/-- Merges into the FOLLOW set of an occurrence all that follows from it, and tells whether the
    set grew. What was found before a failure stays merged. -/
def visit (occurrence : Occurrence) (firsts follows : SetTable) : SetTable × Except Error Bool :=
  let (found, ending) := occurrence.scan firsts occurrence.rest
  let (follows, grew) := follows.grow occurrence.target found
  match ending with
  | .stopped => (follows, .ok grew)
  | .failed e => (follows, .error e)
  | .exhausted =>
    let (follows, _) := follows.grow occurrence.owner ∅
    let (follows, more) := follows.grow occurrence.target (follows.setOf occurrence.owner)
    (follows, .ok (grew || more))

end Occurrence

/-! ## Passes -/

/-- Visits occurrences in order, up to the first failure, and tells whether a set grew. -/
def visitAll (firsts : SetTable) : List Occurrence → SetTable → SetTable × Except Error Bool
  | [], follows => (follows, .ok false)
  | occurrence :: rest, follows =>
    match occurrence.visit firsts follows with
    | (follows, .error e) => (follows, .error e)
    | (follows, .ok grew) =>
      match visitAll firsts rest follows with
      | (follows, .error e) => (follows, .error e)
      | (follows, .ok more) => (follows, .ok (grew || more))

namespace Store

/-- One pass over all occurrences in a store: the table it leaves, also when it failed, and
    whether a set grew. -/
def followPass (store : Store) (firsts follows : SetTable) : SetTable × Except Error Bool :=
  visitAll firsts store.occurrences follows

/-- More passes than FOLLOW can take from a table: every pass but the last adds a symbol to a
    set, and a set holds symbols of the productions, of the FIRST sets and of the table. -/
def followBound (store : Store) (firsts follows : SetTable) : Nat :=
  (follows.size + 2 * store.occurrences.length) *
    (store.alternatives.flatMap Prod.snd ++ firsts.symbols ++ follows.symbols).length + 1

/-- The passes from a table of FOLLOW sets. -/
def followRun (store : Store) (firsts follows : SetTable) : PassRun Error SetTable :=
  runPasses
    (fun table =>
      match store.followPass firsts table with
      | (next, .ok changed) => .ok (next, changed)
      | (_, .error e) => .error e)
    (store.followBound firsts follows) follows

/-- The table that the passes begin with: empty sets, and the end of input in the set of the
    start nonterminal if there is one. -/
def followStart (store : Store) (start : Option NonterminalId) : Except Error SetTable :=
  let blank := SetTable.blank store.identifiers.toList
  match start with
  | none => .ok blank
  | some id =>
    if id ∈ blank then .ok (blank.grow id {.endOfInput}).1
    else .error (.missingIdentifier id)

end Store

/-! ## The sets of a store -/

/-- The FOLLOW sets of a store, and the number of passes that they took. -/
structure Follows where
  table : SetTable
  passes : Nat

/-- One event for each pass, numbered from `n`. -/
def passEvents (n : Nat) : List Bool → List Event
  | [] => []
  | flag :: rest => .followPass n flag :: passEvents (n + 1) rest

/-- The FOLLOW sets of all nonterminals. With a start nonterminal the end of input follows it. -/
def Store.follows (store : Store) (firsts : SetTable) (start : Option NonterminalId) :
    Logged Follows := do
  let table ← store.followStart start
  let run := store.followRun firsts table
  let passes := run.flags.length
  let events := passEvents 1 run.flags
  match run.result with
  | .ok table => ⟨events ++ [.followsConverged passes], .ok ⟨table, passes⟩⟩
  | .error e => ⟨events, .error e⟩

end FirstFollow

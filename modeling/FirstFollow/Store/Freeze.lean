import FirstFollow.Store.Basic

/-!
# Freezing a store

A store is frozen once every production is well formed: it holds at least one symbol, it holds
the empty symbol only alone, and beside terminals it holds only nonterminals that have
productions. Otherwise freezing names the first offence, in the order of the store, and leaves
the store open.
-/

namespace FirstFollow

/-- What is wrong with one symbol of a production of `owner`, in a store with the given keys. -/
def symbolDefect? (keys : List NonterminalId) (owner : NonterminalId) (production : Production) :
    Symbol → Option Defect
  | .empty => if production.length = 1 then none else some (.emptyNotAlone production)
  | .nonterminal target => if target ∈ keys then none else some (.danglingReference owner target)
  | .terminal _ => none
  | symbol => some (.misplacedSymbol symbol)

/-- The first offence in a production. -/
def productionDefect? (keys : List NonterminalId) (owner : NonterminalId)
    (production : Production) : Option Defect :=
  if production.isEmpty then some (.blankProduction owner)
  else production.findSome? (symbolDefect? keys owner production)

namespace Store

/-- The first offence in a store. -/
def defect? (store : Store) : Option Defect :=
  store.alternatives.findSome? fun alternative =>
    productionDefect? store.keys alternative.1 alternative.2

/-- Checks a store and makes it refuse changes. A frozen store stays as it is. -/
def freeze (store : Store) : Logged Store :=
  if store.frozen then pure store
  else
    match store.defect? with
    | some d => .ofExcept (.error (.defect d))
    | none =>
      ⟨[.froze store.names.size store.synthetic.size store.alphabet.size],
        .ok { store with frozen := true }⟩

end Store

/-! ## Changes as data -/

/-- A change to a store. -/
inductive Store.Edit where
  | add (id : NonterminalId) (production : Production)
  | markSynthetic (id : NonterminalId)
  | freeze
  deriving DecidableEq, Repr

namespace Store

/-- Makes one change. -/
def apply (store : Store) : Edit → Logged Store
  | .add id production => .ofExcept (store.add id production)
  | .markSynthetic id => .ofExcept (store.markSynthetic id)
  | .freeze => store.freeze

/-- The store after a change. A change that is refused leaves it as it was. -/
def after (store : Store) (edit : Edit) : Store :=
  match (store.apply edit).result with
  | .ok changed => changed
  | .error _ => store

end Store

end FirstFollow

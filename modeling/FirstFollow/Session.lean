import FirstFollow.Analysis.GrammarSets
import FirstFollow.Lowering.Builder
import FirstFollow.Rule.Expr

/-!
# Sessions

A session is a workspace on which operations are run one after another: a store and a supply of
identifiers at hand, a builder, and the results of the analysis so far. An operation that fails
leaves what it would have assigned as it was; what it had changed in place before it failed
stays changed.

The store and the supply at hand are either the session's own or those of its builder. In the
second case a change to one shows in the other, since they are the same.
-/

namespace FirstFollow

/-- The state of a session. -/
structure Session where
  builder : Builder
  /-- The store at hand, unless it is the builder's. -/
  ownStore : Option Store
  /-- The supply at hand, unless it is the builder's. -/
  ownIds : Option Identifiers
  firsts : SetTable
  follows : SetTable
  analysis : GrammarSets

namespace Session

/-- A session with nothing in it. -/
def start : Session :=
  let ids := Identifiers.ofTable ∅
  { builder := .ofIds [] ids
    ownStore := some (.ofNames ∅)
    ownIds := some ids
    firsts := ∅
    follows := ∅
    analysis := .blank }

/-- The store at hand. -/
def store (session : Session) : Store :=
  session.ownStore.getD session.builder.store

/-- The supply of identifiers at hand. -/
def ids (session : Session) : Identifiers :=
  session.ownIds.getD session.builder.ids

/-- Assigns what a computation answers, if it does. -/
def assign {α : Type} (session : Session) (set : α → Session) (answer : Logged α) :
    Session × Logged α :=
  match answer.result with
  | .ok a => (set a, answer)
  | .error _ => (session, answer)

/-! ## The store and the identifiers at hand -/

/-- Takes a new store. -/
def newStore (session : Session) (names : Table String NonterminalId) : Session :=
  { session with ownStore := some (.ofNames names) }

/-- Changes the store at hand in place. -/
def setStore (session : Session) (store : Store) : Session :=
  match session.ownStore with
  | some _ => { session with ownStore := some store }
  | none => { session with builder := { session.builder with store } }

/-- Makes a change to the store at hand. -/
def edit (session : Session) (edit : Store.Edit) : Session × Logged Store :=
  session.assign session.setStore (session.store.apply edit)

/-- Takes a new supply of identifiers. -/
def newIds (session : Session) (names : List String) : Session × Logged Identifiers :=
  session.assign (fun ids => { session with ownIds := some ids })
    (Logged.ofExcept (Identifiers.ofNames names))

/-- Hands out an identifier from the supply at hand. -/
def nextId (session : Session) : NonterminalId × Session :=
  let (id, ids) := session.ids.next
  (id, match session.ownIds with
    | some _ => { session with ownIds := some ids }
    | none => { session with builder := { session.builder with ids } })

/-! ## The builder -/

/-- Takes a new builder, with its store and its supply of identifiers. -/
def newBuilder (session : Session) (definitions : List DefinitionExpr) :
    Session × Logged Builder :=
  session.assign (fun builder => { session with builder, ownStore := none, ownIds := none })
    (Logged.ofExcept do Builder.ofDefinitions (← DefinitionExpr.evalAll definitions))

/-- Lets the builder build. The store at hand stays the same one. -/
def build (session : Session) : Session × Logged Store :=
  let (builder, answer) := session.builder.build
  ({ session with builder }, answer)

/-! ## The analysis -/

/-- Computes the FIRST sets of the store at hand. -/
def computeFirsts (session : Session) : Session × Logged SetTable :=
  session.assign (fun firsts => { session with firsts }) (Logged.ofExcept session.store.firsts)

/-- Makes one pass over the FOLLOW sets. -/
def followPass (session : Session) : Session × Except Error Bool :=
  let (follows, answer) := session.store.followPass session.firsts session.follows
  ({ session with follows }, answer)

/-- Computes the FOLLOW sets of the store at hand. -/
def computeFollows (session : Session) (start : Option NonterminalId) :
    Session × Logged Follows :=
  session.assign (fun follows => { session with follows := follows.table })
    (session.store.follows session.firsts start)

/-- Analyzes the store at hand. -/
def analyze (session : Session) (start : Start) : Session × Logged GrammarSets :=
  session.assign (fun analysis => { session with analysis }) (session.store.analyze start)

end Session

end FirstFollow

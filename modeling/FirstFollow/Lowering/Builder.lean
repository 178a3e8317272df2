import FirstFollow.Lowering.Identifiers
import FirstFollow.Lowering.Plan
import FirstFollow.Store.Freeze

/-!
# Building a store

A builder carries out the plan of its definitions on a store and a supply of identifiers of its
own. When a step fails the steps before it stay done.
-/

namespace FirstFollow

/-- Definitions, with the store and the identifiers that they are lowered into. -/
structure Builder where
  definitions : List Definition
  ids : Identifiers
  store : Store

namespace Builder

/-- A builder that has done nothing yet. -/
def ofIds (definitions : List Definition) (ids : Identifiers) : Builder :=
  ⟨definitions, ids, .ofNames ids.names⟩

/-- A builder for definitions, which need different names. -/
def ofDefinitions (definitions : List Definition) : Except Error Builder :=
  ofIds definitions <$> Identifiers.ofNames (definitions.map Definition.name)

/-- Carries out one step. -/
def perform (builder : Builder) : Step → Builder × Logged Unit
  | .announce name id => (builder, .report (.lowering name id))
  | .helper id kind definition =>
    let ids := builder.ids.next.2
    match builder.store.markSynthetic id with
    | .ok store => ({ builder with ids, store }, .report (.helper id kind definition))
    | .error e => ({ builder with ids }, .ofExcept (.error e))
  | .emit id production =>
    match builder.store.add id production with
    | .ok store => ({ builder with store }, pure ())
    | .error e => (builder, .ofExcept (.error e))
  | .fail e => (builder, .ofExcept (.error e))

/-- Carries out steps until one fails. -/
def performAll (builder : Builder) : List Step → Builder × Logged Unit
  | [] => (builder, pure ())
  | step :: rest =>
    match builder.perform step with
    | (next, ⟨events, .ok ()⟩) =>
      let (last, ending) := next.performAll rest
      (last, ⟨events ++ ending.events, ending.result⟩)
    | (next, ⟨events, .error e⟩) => (next, ⟨events, .error e⟩)

/-- The steps that lower the builder's definitions. -/
def plan (builder : Builder) : List Step :=
  planAll builder.ids.names builder.definitions builder.ids.counter

/-- Lowers the definitions into the store and freezes it. -/
def build (builder : Builder) : Builder × Logged Store :=
  match builder.performAll builder.plan with
  | (last, ⟨events, .ok ()⟩) =>
    let frozen := last.store.freeze
    let store := match frozen.result with
      | .ok store => store
      | .error _ => last.store
    ({ last with store }, ⟨events ++ frozen.events, frozen.result⟩)
  | (last, ⟨events, .error e⟩) => (last, ⟨events, .error e⟩)

end Builder

/-- Lowers definitions into a frozen store. -/
def build (definitions : List Definition) : Logged Store := do
  let builder ← Builder.ofDefinitions definitions
  builder.build.2

end FirstFollow

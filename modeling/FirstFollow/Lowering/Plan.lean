import FirstFollow.Rule.Sugar
import FirstFollow.Store.Basic

/-!
# Lowering plans

Definitions are lowered to productions by a plan: a list of steps that a builder carries out in
order. Each choice, repetition, option and group gets a helper nonterminal N of its own:

* `X | Y | Z` becomes `N = X | Y | Z`, one production a choice;
* a repetition of `X` becomes `N = X N | ε`;
* an option of `X` becomes `N = X | ε`;
* `X` in brackets becomes `N = X`;

and N stands in its place. Sequences append to the production at hand. Helpers are numbered in
the order in which a walk from the left enters their nodes. A node that cannot be lowered plans
a failure, and what is planned after a failure is never carried out.
-/

namespace FirstFollow

/-- One step of a plan. -/
inductive Step where
  /-- Says that the lowering of a definition begins. -/
  | announce (name : String) (id : NonterminalId)
  /-- Makes a helper. -/
  | helper (id : NonterminalId) (kind : HelperKind) (definition : String)
  /-- Adds a production. -/
  | emit (id : NonterminalId) (production : Production)
  /-- Gives up. -/
  | fail (error : Error)
  deriving Repr

/-- What a rule is lowered to: the symbols that it adds to the production at hand, the steps to
    take before that production is added, and the number of the next helper. -/
structure Lowered where
  symbols : List Symbol
  steps : List Step
  next : NonterminalId
  deriving Repr

/-- What the rules of a definition see: the numbers of all names, and the name of the definition
    itself. -/
structure Scope where
  names : Table String NonterminalId
  definition : String

/-- A list of symbols as a production: without any it is the empty symbol alone. -/
def spell (symbols : List Symbol) : Production :=
  if symbols.isEmpty then [.empty] else symbols

mutual

/-- Lowers a rule, with `n` the number of the next helper. -/
def Rule.lower (scope : Scope) : Rule → NonterminalId → Lowered
  | .character c, n => ⟨[.terminal c.toString], [], n⟩
  | .reference name, n =>
    match scope.names.get? name with
    | some id => ⟨[.nonterminal id], [], n⟩
    | none => ⟨[], [.fail (.unknownIdentifier name)], n⟩
  | .strayReference value, n => ⟨[], [.fail (.strayReference value)], n⟩
  | .sequence rules, n => lowerAll scope rules n
  | .alternative first rest, n =>
    let head := first.lower scope (n + 1)
    let (tail, next) := emitAll scope n rest head.next
    ⟨[.nonterminal n],
      .helper n .alternative scope.definition :: head.steps ++ .emit n (spell head.symbols) :: tail,
      next⟩
  | .repetition rule, n =>
    let body := rule.lower scope (n + 1)
    ⟨[.nonterminal n],
      .helper n .repetition scope.definition :: body.steps ++
        [.emit n (body.symbols ++ [.nonterminal n]), .emit n [.empty]],
      body.next⟩
  | .option rule, n =>
    let body := rule.lower scope (n + 1)
    let production := spell body.symbols
    ⟨[.nonterminal n],
      .helper n .option scope.definition :: body.steps ++ .emit n production ::
        (if production = [.empty] then [] else [.emit n [.empty]]),
      body.next⟩
  | .group rule, n =>
    let body := rule.lower scope (n + 1)
    ⟨[.nonterminal n],
      .helper n .group scope.definition :: body.steps ++ [.emit n (spell body.symbols)],
      body.next⟩
  | .exclude _ _, n =>
    ⟨[], [.fail (.unsupported "Set difference (exclude)" (some scope.definition))], n⟩
  | .foreign value, n => ⟨[], [.fail (.notRule value)], n⟩

/-- Lowers rules into one production. -/
def Rule.lowerAll (scope : Scope) : List Rule → NonterminalId → Lowered
  | [], n => ⟨[], [], n⟩
  | rule :: rest, n =>
    let head := rule.lower scope n
    let tail := lowerAll scope rest head.next
    ⟨head.symbols ++ tail.symbols, head.steps ++ tail.steps, tail.next⟩

/-- Lowers each rule into a production of `owner`: the steps, and the number of the next
    helper. -/
def Rule.emitAll (scope : Scope) (owner : NonterminalId) :
    List Rule → NonterminalId → List Step × NonterminalId
  | [], n => ([], n)
  | rule :: rest, n =>
    let head := rule.lower scope n
    let (tail, next) := emitAll scope owner rest head.next
    (head.steps ++ .emit owner (spell head.symbols) :: tail, next)

end

/-- Lowers a definition. A choice at its top is the definition's own choice of productions and
    gets no helper. -/
def Definition.lower (names : Table String NonterminalId) (definition : Definition)
    (n : NonterminalId) : List Step × NonterminalId :=
  match names.get? definition.name with
  | none => ([.fail (.unknownIdentifier definition.name)], n)
  | some id =>
    let (steps, next) :=
      Rule.emitAll ⟨names, definition.name⟩ id definition.rule.choices n
    (.announce definition.name id :: steps, next)

/-- The steps that lower definitions, one after another. -/
def planAll (names : Table String NonterminalId) : List Definition → NonterminalId → List Step
  | [], _ => []
  | definition :: rest, n =>
    let (steps, next) := definition.lower names n
    steps ++ planAll names rest next

end FirstFollow

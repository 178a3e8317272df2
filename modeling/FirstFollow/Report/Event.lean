import FirstFollow.Report.Error

/-!
# Events

Lowering and analysis report what they do, as events of different severity. A log lists those
that are severe enough, one a line.
-/

namespace FirstFollow

/-- The nodes of a rule tree that are lowered to a helper nonterminal. -/
inductive HelperKind where
  | alternative
  | repetition
  | option
  | group
  deriving DecidableEq, Repr

/-- The name of a kind of helper. -/
def HelperKind.word : HelperKind → String
  | .alternative => "alternative"
  | .repetition => "repetition"
  | .option => "option"
  | .group => "group"

/-- How much an event matters, in ascending order. -/
inductive Severity where
  | debug
  | info
  | warning
  deriving DecidableEq, Repr

namespace Severity

/-- The label of a severity. -/
def word : Severity → String
  | .debug => "DEBUG"
  | .info => "INFO"
  | .warning => "WARNING"

/-- Severities compare by level. -/
def level : Severity → Nat
  | .debug => 10
  | .info => 20
  | .warning => 30

end Severity

/-- What is reported. -/
inductive Event where
  /-- The lowering of a definition begins. -/
  | lowering (name : String) (id : NonterminalId)
  /-- A helper was made for a node in a definition. -/
  | helper (id : NonterminalId) (kind : HelperKind) (definition : String)
  /-- A store was frozen. -/
  | froze (named synthetic terminals : Nat)
  /-- A pass over the FOLLOW sets ended. -/
  | followPass (number : Nat) (changed : Bool)
  /-- The FOLLOW sets are complete. -/
  | followsConverged (passes : Nat)
  deriving DecidableEq, Repr

namespace Event

/-- How much an event matters. -/
def severity : Event → Severity
  | .lowering .. => .debug
  | .helper .. => .debug
  | .froze .. => .info
  | .followPass .. => .debug
  | .followsConverged .. => .info

/-- The part of the library that reports the event. -/
def channel : Event → String
  | .lowering .. => "ebnf.build"
  | .helper .. => "ebnf.build"
  | .froze .. => "ebnf.build"
  | .followPass .. => "ebnf.sets"
  | .followsConverged .. => "ebnf.sets"

/-- The wording of an event. -/
def message : Event → String
  | .lowering name id => "Lowering " ++ name ++ " as " ++ toString id
  | .helper id kind definition =>
    "  " ++ toString id ++ ": " ++ kind.word ++ " in " ++ definition
  | .froze named synthetic terminals =>
    "Froze grammar: " ++ toString named ++ " named, " ++ toString synthetic ++ " synthetic, " ++
      toString terminals ++ " terminals"
  | .followPass number changed =>
    "Follow pass " ++ toString number ++ ": " ++ if changed then "changed" else "stable"
  | .followsConverged passes => "Follow sets converged after " ++ toString passes ++ " passes"

/-- The line of an event in a log. -/
def render (event : Event) : String :=
  event.severity.word ++ " " ++ event.channel ++ " " ++ event.message

end Event

/-- The written events that matter at least as much as `threshold`. -/
def renderLog (threshold : Severity) (events : List Event) : List String :=
  (events.filter fun event => threshold.level ≤ event.severity.level).map Event.render

end FirstFollow

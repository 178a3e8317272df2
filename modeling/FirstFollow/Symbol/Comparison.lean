import FirstFollow.Symbol.Basic

/-!
# Comparing symbols

Two terminals compare by their texts and two nonterminals by their numbers. Symbols of other
kinds, or of different kinds, have no order between them, although sets list them in one.
-/

namespace FirstFollow

/-- The four order relations. -/
inductive Comparison where
  | less
  | lessOrEqual
  | greater
  | greaterOrEqual
  deriving DecidableEq, Repr

namespace Comparison

/-- The sign of a relation. -/
def sign : Comparison → String
  | .less => "<"
  | .lessOrEqual => "<="
  | .greater => ">"
  | .greaterOrEqual => ">="

/-- Whether the relation holds between two elements of an ordered type. -/
def holds {α : Type} [Ordered α] (relation : Comparison) (a b : α) : Bool :=
  match relation with
  | .less => Ordered.before a b
  | .lessOrEqual => !Ordered.before b a
  | .greater => Ordered.before b a
  | .greaterOrEqual => !Ordered.before a b

end Comparison

/-- Whether the relation holds between two symbols, if they have an order at all. -/
def Symbol.compare? (relation : Comparison) : Symbol → Symbol → Option Bool
  | .terminal s, .terminal t => some (relation.holds s t)
  | .nonterminal i, .nonterminal j => some (relation.holds i j)
  | .alien s, .alien t => some (relation.holds s t)
  | _, _ => none

end FirstFollow

import FirstFollow.Text.Quoted
import FirstFollow.Container.SortedSet

/-!
# Grammar symbols

The symbols that productions and their FIRST and FOLLOW sets are made of, how they are written,
and the order in which sets list them.
-/

namespace FirstFollow

/-- Nonterminals are known by number. -/
abbrev NonterminalId := Int

/-- A symbol of a production or of a set. -/
inductive Symbol where
  /-- The empty string. A production that holds it holds nothing else. -/
  | empty
  /-- The end of the input. It only appears in FOLLOW sets. -/
  | endOfInput
  /-- A placeholder for item sets. No production may hold it. -/
  | wildcard
  | terminal (text : String)
  | nonterminal (id : NonterminalId)
  /-- A text that stands where a symbol belongs. It equals no symbol. -/
  | alien (text : String)
  deriving DecidableEq, Repr

/-- The right-hand side of one alternative. -/
abbrev Production := List Symbol

namespace Symbol

/-! ## Written forms -/

/-- How a symbol is written in a production. -/
def render : Symbol → String
  | .empty => "ε"
  | .endOfInput => "$"
  | .wildcard => "*"
  | .terminal text => quote text
  | .nonterminal id => "<" ++ toString id ++ ">"
  | .alien text => text

/-- The name of a symbol's kind. -/
def kind : Symbol → String
  | .empty => "Empty"
  | .endOfInput => "EndOfInput"
  | .wildcard => "Wildcard"
  | .terminal _ => "Terminal"
  | .nonterminal _ => "NonTerminal"
  | .alien _ => "str"

/-- A symbol with its kind and its field spelled out. -/
def describe : Symbol → String
  | .terminal text => "Terminal(char=" ++ quote text ++ ")"
  | .nonterminal id => "NonTerminal(id=" ++ toString id ++ ")"
  | .alien text => quote text
  | s => s.kind ++ "()"

/-! ## The listing order -/

/-- Symbols of different kinds are listed by rank. -/
def rank : Symbol → Nat
  | .empty => 0
  | .endOfInput => 1
  | .wildcard => 2
  | .terminal _ => 3
  | .nonterminal _ => 4
  | .alien _ => 5

/-- Whether a set lists the first symbol ahead of the second: by rank, terminals by text and
    nonterminals by number. -/
def before : Symbol → Symbol → Bool
  | .terminal s, .terminal t => Ordered.before s t
  | .nonterminal i, .nonterminal j => Ordered.before i j
  | .alien s, .alien t => Ordered.before s t
  | a, b => decide (a.rank < b.rank)

instance : Ordered Symbol where
  before := before
  irrefl a := by
    cases a <;> simp [before, rank, Ordered.irrefl]
  trans {a b c} := by
    cases a <;> cases b <;> cases c <;> simp [before, rank] <;> exact Ordered.trans
  connected a b := by
    cases a <;> cases b <;> simp [before, rank] <;> exact Ordered.connected _ _

end Symbol

/-- The sets of symbols that the analysis computes. -/
abbrev SymbolSet := SortedSet Symbol

/-- A production is written with a blank between symbols. -/
def renderProduction (production : Production) : String :=
  " ".intercalate (production.map Symbol.render)

end FirstFollow

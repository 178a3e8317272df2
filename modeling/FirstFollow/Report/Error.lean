import FirstFollow.Rule.Printer
import FirstFollow.Symbol.Comparison

/-!
# Errors

Every way in which an operation of the library fails is one constructor, with the data that the
failure is about. `Error.message` words them.
-/

namespace FirstFollow

/-- What is wrong with a store, or with how it is used. -/
inductive Defect where
  /-- A defect in the caller's own words. -/
  | stated (message : String)
  /-- A production was added to a frozen store. -/
  | productionAfterFreeze
  /-- An identifier was added to a frozen store. -/
  | identifierAfterFreeze
  /-- The nonterminal has a production without symbols. -/
  | blankProduction (id : NonterminalId)
  /-- The production holds the empty symbol beside others. -/
  | emptyNotAlone (production : Production)
  /-- The nonterminal refers to one that has no productions. -/
  | danglingReference (id target : NonterminalId)
  /-- The symbol is none that productions are made of. -/
  | misplacedSymbol (symbol : Symbol)
  /-- The symbol has no FIRST set. -/
  | noFirstSet (symbol : Symbol)
  /-- The nonterminal has no productions, and so no FIRST set. -/
  | noProductions (id : NonterminalId)
  /-- The symbol stands after the nonterminal in the production, and nothing follows from it. -/
  | unexpectedSymbol (symbol : Symbol) (after : NonterminalId) (production : Production)
  /-- The store is still open. -/
  | notFrozen
  deriving DecidableEq, Repr

/-- The wording of a defect. -/
def Defect.message : Defect → String
  | .stated message => message
  | .productionAfterFreeze => "Cannot add productions to a frozen grammar store"
  | .identifierAfterFreeze => "Cannot add identifiers to a frozen grammar store"
  | .blankProduction id => "Nonterminal " ++ toString id ++ " has an empty production"
  | .emptyNotAlone production =>
    "Empty is not the only symbol in " ++ renderProduction production
  | .danglingReference id target =>
    "Nonterminal " ++ toString id ++ " refers to " ++ toString target ++
      ", which has no productions"
  | .misplacedSymbol symbol => symbol.render ++ " cannot appear in a production"
  | .noFirstSet symbol => symbol.render ++ " has no first set"
  | .noProductions id => "Nonterminal " ++ toString id ++ " has no productions"
  | .unexpectedSymbol symbol after production =>
    "Unexpected " ++ symbol.render ++ " after " ++ (Symbol.nonterminal after).render ++ " in " ++
      renderProduction production
  | .notFrozen => "Freeze the grammar store before analyzing it"

/-- Why an operation failed. -/
inductive Error where
  /-- A failure in the caller's own words. -/
  | stated (message : String)
  /-- Definitions refused in the caller's own words, with the offending name if there is one. -/
  | rejected (message : String) (name : Option String)
  /-- No rule has that name. -/
  | unknownIdentifier (name : String)
  /-- A reference is by a value that is not a name. -/
  | strayReference (value : Rule)
  /-- Two definitions have that name. -/
  | duplicateDefinition (name : String)
  /-- The construct cannot be lowered; the name is that of the definition that holds it. -/
  | unsupported (construct : String) (name : Option String)
  /-- The store is malformed or misused. -/
  | defect (defect : Defect)
  /-- The value is neither a rule nor a text. -/
  | notRuleOrText (value : Foreign)
  /-- The value stands in a tree where a rule belongs. -/
  | notRule (value : Foreign)
  /-- The value is not a text of one character. -/
  | notOneCharacter (value : Rule)
  /-- The value has no characters to make a sequence of. -/
  | notSpellable (value : Rule)
  /-- An alternative was made without choices. -/
  | noChoices
  /-- A choice was made between two plain texts. -/
  | choiceOfTexts
  /-- The symbols have no order between them. -/
  | incomparable (relation : Comparison) (left right : Symbol)
  /-- A table has no entry for the nonterminal. -/
  | missingIdentifier (id : NonterminalId)
  /-- A table has no entry for the symbol. -/
  | missingSymbol (symbol : Symbol)
  deriving Repr

/-- The message that a caller's own words make: a single value as it reads, several as a
    listing. -/
def statement : List Foreign → String
  | [] => ""
  | [value] => value.inWords
  | values => describeTuple (values.map Foreign.describe)

/-- The wording of an error. -/
def Error.message : Error → String
  | .stated message => message
  | .rejected message _ => message
  | .unknownIdentifier name => "Unknown identifier " ++ name
  | .strayReference value => "Unknown identifier " ++ value.inWords
  | .duplicateDefinition name => name ++ " is defined more than once"
  | .unsupported construct none => construct ++ " is not supported"
  | .unsupported construct (some name) => construct ++ " is not supported (in " ++ name ++ ")"
  | .defect d => d.message
  | .notRuleOrText value => "Expected a rule or a string, got " ++ value.describe
  | .notRule value => "Not a rule expression: " ++ value.describe
  | .notOneCharacter value =>
    "A character rule matches exactly one character, not " ++ value.describe
  | .notSpellable value => "'" ++ value.kind ++ "' object is not iterable"
  | .noChoices => "An alternative needs at least one choice"
  | .choiceOfTexts => "unsupported operand type(s) for |: 'str' and 'str'"
  | .incomparable relation left right =>
    "'" ++ relation.sign ++ "' not supported between instances of '" ++ left.kind ++ "' and '" ++
      right.kind ++ "'"
  | .missingIdentifier id => toString id
  | .missingSymbol symbol => symbol.describe

/-- The comparison of two symbols, or the reason why there is none. -/
def Symbol.compare (relation : Comparison) (left right : Symbol) : Except Error Bool :=
  match left.compare? relation right with
  | some answer => .ok answer
  | none => .error (.incomparable relation left right)

end FirstFollow

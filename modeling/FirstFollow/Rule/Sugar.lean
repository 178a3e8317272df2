import FirstFollow.Report.Error

/-!
# Building rule trees

Trees are built from rules and plain texts. A text stands for the sequence of its characters.
Sequences inside a sequence and alternatives inside an alternative are spliced in, one level
deep: their nesting would mean nothing, and each alternative is lowered to a helper of its own.
-/

namespace FirstFollow

namespace Rule

/-- The text that a value is, if it is one. -/
def text? : Rule → Option String
  | .foreign (.text s) => some s
  | _ => none

/-- The sequence of the characters of a text. -/
def string (s : String) : Rule :=
  .sequence (s.toList.map .character)

/-- The sequence of the characters of a value, which must be a text. -/
def spellOut (value : Rule) : Except Error Rule :=
  match value.text? with
  | some s => .ok (string s)
  | none => .error (.notSpellable value)

/-- The reference by a value. -/
def ref (value : Rule) : Rule :=
  match value.text? with
  | some name => .reference name
  | none => .strayReference value

/-- The rule that a value stands for: a rule itself, a text its characters in sequence. -/
def promote : Rule → Except Error Rule
  | .foreign (.text s) => .ok (string s)
  | .foreign value => .error (.notRuleOrText value)
  | rule => .ok rule

/-- The character rule of a text of one character. -/
def char (value : Rule) : Except Error Rule :=
  match value with
  | .foreign (.text s) =>
    match s.toList with
    | [c] => .ok (.character c)
    | _ => .error (.notOneCharacter value)
  | _ => .error (.notOneCharacter value)

/-- The alternative of a list of choices, which may not be empty. -/
def choice : List Rule → Except Error Rule
  | [] => .error .noChoices
  | first :: rest => .ok (.alternative first rest)

/-- What a rule contributes to a sequence that it becomes part of. -/
def sequents : Rule → List Rule
  | .sequence rules => rules
  | rule => [rule]

/-- What a rule contributes to an alternative that it becomes part of. -/
def choices : Rule → List Rule
  | .alternative first rest => first :: rest
  | rule => [rule]

theorem choices_ne_nil (rule : Rule) : rule.choices ≠ [] := by
  cases rule <;> exact List.cons_ne_nil _ _

/-- The sequence of some values. -/
def seq (args : List Rule) : Except Error Rule := do
  let rules ← args.mapM promote
  return .sequence (rules.flatMap sequents)

/-- The alternative of some values. -/
def alt (args : List Rule) : Except Error Rule := do
  let rules ← args.mapM promote
  choice (rules.flatMap choices)

/-- One value as the rule it stands for, several as their sequence. -/
def body : List Rule → Except Error Rule
  | [arg] => promote arg
  | args => seq args

/-- Zero or more of some values in sequence. -/
def rep (args : List Rule) : Except Error Rule := .repetition <$> body args

/-- Zero or one of some values in sequence. -/
def opt (args : List Rule) : Except Error Rule := .option <$> body args

/-- Some values in sequence, in brackets. -/
def bracket (args : List Rule) : Except Error Rule := .group <$> body args

/-- What the first value matches and the second does not. -/
def difference (source excluded : Rule) : Except Error Rule := do
  return .exclude (← promote source) (← promote excluded)

/-! ## Operators -/

/-- Two values one after another; two plain texts make a longer one. -/
def plus (left right : Rule) : Except Error Rule :=
  match left.text?, right.text? with
  | some s, some t => .ok (.foreign (.text (s ++ t)))
  | _, _ => seq [left, right]

/-- A choice between two values, which may not both be plain texts. -/
def or (left right : Rule) : Except Error Rule :=
  match left.text?, right.text? with
  | some _, some _ => .error .choiceOfTexts
  | _, _ => alt [left, right]

end Rule

/-- The definition of a name by a value. -/
def Definition.define (name : String) (value : Rule) : Except Error Definition := do
  return ⟨name, ← value.promote⟩

end FirstFollow

import FirstFollow.Rule.Basic

/-!
# Printed rule trees

A tree is printed with the kind of each node and its fields by name. The rules of a sequence and
of an alternative stand in brackets, a single one with a comma after it.
-/

namespace FirstFollow

/-- The printed form of a value that is not a rule. -/
def Foreign.describe : Foreign → String
  | .text s => quote s
  | .none => "None"
  | .truth true => "True"
  | .truth false => "False"
  | .integer value => toString value
  | .symbol s => s.describe

/-- The listing of printed items in brackets. -/
def describeTuple : List String → String
  | [] => "()"
  | [item] => "(" ++ item ++ ",)"
  | items => "(" ++ ", ".intercalate items ++ ")"

mutual

/-- The printed form of a tree. -/
def Rule.describe : Rule → String
  | .character c => "Character(char=" ++ quote c.toString ++ ")"
  | .reference name => "Reference(name=" ++ quote name ++ ")"
  | .strayReference value => "Reference(name=" ++ value.describe ++ ")"
  | .sequence rules => "Sequence(rules=" ++ describeTuple (describeAll rules) ++ ")"
  | .alternative first rest =>
    "Alternative(rules=" ++ describeTuple (first.describe :: describeAll rest) ++ ")"
  | .repetition rule => "Repeat(rule=" ++ rule.describe ++ ")"
  | .option rule => "Option(rule=" ++ rule.describe ++ ")"
  | .group rule => "Group(rule=" ++ rule.describe ++ ")"
  | .exclude source excluded =>
    "Exclude(source=" ++ source.describe ++ ", excluded=" ++ excluded.describe ++ ")"
  | .foreign value => value.describe

/-- The printed forms of several trees. -/
def Rule.describeAll : List Rule → List String
  | [] => []
  | rule :: rest => rule.describe :: describeAll rest

end

/-- How a value reads in a sentence: a text as it is, a symbol as in a production, anything else
    in its printed form. -/
def Foreign.inWords : Foreign → String
  | .text s => s
  | .symbol s => s.render
  | value => value.describe

/-- How a rule or another value reads in a sentence. -/
def Rule.inWords : Rule → String
  | .foreign value => value.inWords
  | rule => rule.describe

/-- The name of a value's kind. -/
def Foreign.kind : Foreign → String
  | .text _ => "str"
  | .none => "NoneType"
  | .truth _ => "bool"
  | .integer _ => "int"
  | .symbol s => s.kind

/-- The name of a node's kind. -/
def Rule.kind : Rule → String
  | .character _ => "Character"
  | .reference _ => "Reference"
  | .strayReference _ => "Reference"
  | .sequence _ => "Sequence"
  | .alternative _ _ => "Alternative"
  | .repetition _ => "Repeat"
  | .option _ => "Option"
  | .group _ => "Group"
  | .exclude _ _ => "Exclude"
  | .foreign value => value.kind

/-- The printed form of a definition. -/
def Definition.describe (definition : Definition) : String :=
  "Definition(name=" ++ quote definition.name ++ ", rule=" ++ definition.rule.describe ++ ")"

end FirstFollow

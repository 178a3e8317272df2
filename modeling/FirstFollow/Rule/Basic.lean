import FirstFollow.Symbol.Basic

/-!
# Rule trees

A definition gives a name to a tree of rules. The tree is what a front end hands over: any
value may stand where a rule belongs, and it is only refused when the tree is put to use.
-/

namespace FirstFollow

/-- A value that is not a rule. -/
inductive Foreign where
  | text (text : String)
  | none
  | truth (value : Bool)
  | integer (value : Int)
  | symbol (symbol : Symbol)
  deriving DecidableEq, Repr

/-- One node of a rule tree. -/
inductive Rule where
  /-- A single character. -/
  | character (char : Char)
  /-- What the definition of that name matches. -/
  | reference (name : String)
  /-- A reference by a value that is not a name. It refers to no definition. -/
  | strayReference (value : Rule)
  /-- Rules one after another; without any, the empty string. -/
  | sequence (rules : List Rule)
  /-- A choice, of at least one rule. -/
  | alternative (first : Rule) (rest : List Rule)
  /-- Zero or more of a rule. -/
  | repetition (rule : Rule)
  /-- Zero or one of a rule. -/
  | option (rule : Rule)
  /-- A rule in brackets. -/
  | group (rule : Rule)
  /-- What the first rule matches and the second does not. -/
  | exclude (source excluded : Rule)
  /-- A value that is not a rule, where one belongs. -/
  | foreign (value : Foreign)
  deriving Repr, Inhabited

/-- A named rule. -/
structure Definition where
  name : String
  rule : Rule
  deriving Repr, Inhabited

/-! ## Equality of trees -/

/-- The integer that a truth value or an integer stands for. -/
def Foreign.number? : Foreign → Option Int
  | .truth value => some (if value then 1 else 0)
  | .integer value => some value
  | _ => Option.none

/-- Truth values equal the integers 1 and 0; other values equal themselves alone. -/
def Foreign.equals (a b : Foreign) : Bool :=
  match a.number?, b.number? with
  | some m, some n => m = n
  | _, _ => a = b

mutual

/-- Trees are equal when they are built alike, and values inside them equal. -/
def Rule.equals : Rule → Rule → Bool
  | .character c, .character d => c = d
  | .reference m, .reference n => m = n
  | .strayReference r, .strayReference s => r.equals s
  | .sequence rs, .sequence ss => equalsAll rs ss
  | .alternative r rs, .alternative s ss => r.equals s && equalsAll rs ss
  | .repetition r, .repetition s => r.equals s
  | .option r, .option s => r.equals s
  | .group r, .group s => r.equals s
  | .exclude r r', .exclude s s' => r.equals s && r'.equals s'
  | .foreign v, .foreign w => v.equals w
  | _, _ => false

/-- Lists of trees are equal when they have equal trees in the same places. -/
def Rule.equalsAll : List Rule → List Rule → Bool
  | [], [] => true
  | r :: rs, s :: ss => r.equals s && equalsAll rs ss
  | _, _ => false

end

end FirstFollow
